import Mathlib.Tactic.Common

namespace NotK8s.Scheduler

/-!
# What a plugin answers
-/

inductive Code where
  | success
  | error
  | unschedulable
  | unschedulableAndUnresolvable
  | skip
  deriving DecidableEq

structure Status where
  code : Code
  plugin : String
  reasons : List String
  deriving DecidableEq

namespace Status

def success : Status :=
  ⟨.success, "", []⟩

def skip : Status :=
  ⟨.skip, "", []⟩

def unschedulable (plugin reason : String) : Status :=
  ⟨.unschedulable, plugin, [reason]⟩

def unresolvable (plugin reason : String) : Status :=
  ⟨.unschedulableAndUnresolvable, plugin, [reason]⟩

def isSuccess (status : Status) : Bool :=
  status.code = .success

def isSkip (status : Status) : Bool :=
  status.code = .skip

end Status

end NotK8s.Scheduler
