namespace Script

/-- A call that has not returned, with the file and the line it was made from. -/
structure Frame where
  function : String
  file : String
  line : Nat
  deriving DecidableEq, Repr

def Frame.text (f : Frame) : String :=
  f.function ++ " (" ++ f.file ++ ":" ++ toString f.line ++ ")"

/-- The active calls, outermost first, and how many there may be. -/
structure CallStack where
  frames : Array Frame
  limit : Nat

namespace CallStack

def defaultLimit : Nat := 100

def empty (limit : Nat) : CallStack := ⟨#[], limit⟩

def depth (s : CallStack) : Nat := s.frames.size

/-- The active calls, outermost first. -/
def trace (s : CallStack) : List Frame := s.frames.toList

def isEmpty (s : CallStack) : Bool := s.frames.isEmpty

def isFull (s : CallStack) : Bool := s.limit ≤ s.frames.size

/-- The stack with one more call, whatever the limit. -/
def push (s : CallStack) (frame : Frame) : CallStack := { s with frames := s.frames.push frame }

def pop (s : CallStack) : CallStack := { s with frames := s.frames.pop }

@[simp]
theorem trace_push (s : CallStack) (frame : Frame) : (s.push frame).trace = s.trace ++ [frame] := by
  simp [push, trace]

@[simp]
theorem trace_pop (s : CallStack) : s.pop.trace = s.trace.dropLast := by
  simp [pop, trace]

theorem not_isEmpty_of_trace {s : CallStack} {calls : List Frame} {frame : Frame}
    (h : s.trace = calls ++ [frame]) : ¬s.isEmpty := by
  intro he
  have : s.frames = #[] := by simpa [isEmpty] using he
  simp [trace, this] at h

/-- The stack with one more call, unless the limit is reached. -/
def push? (s : CallStack) (frame : Frame) : Option CallStack :=
  if s.isFull then none else some (s.push frame)

end CallStack

end Script
