import FlowPlan.Store.Container

namespace FlowPlan.Counter

/-- A change of the entries of one partition. -/
inductive Change where
  | insert (partition : Nat)
  | remove (partition : Nat)
  | set (partition : Nat) (entries : UInt64)
  deriving DecidableEq, Repr

namespace Change

def partition : Change → Nat
  | .insert partition => partition
  | .remove partition => partition
  | .set partition _ => partition

/-- Takes all entries out of a container that counts in one number. -/
def clear : Change := .set 0 0

end Change

def apply (c : Counter) : Change → Counter
  | .insert partition => c.insert partition
  | .remove partition => c.remove partition
  | .set partition entries => c.set partition entries

/-- The counter after some changes, the first of them first. -/
def after (c : Counter) (changes : List Change) : Counter := changes.foldl apply c

end FlowPlan.Counter
