import Retention.Rule

/-!
# Garbage-collection policies

A policy is what a column family is set to: a rule without wrappers, or no collection at
all. Policies that come back from the admin API may be of any shape, so a combination may
have any number of children and a leaf any number.
-/

namespace Retention

/-- A garbage-collection policy. -/
inductive Policy where
  | noGc
  | maxAge (seconds : Number)
  | maxVersions (count : Number)
  | combined (mode : Mode) (children : List Policy)

namespace Policy

instance : Inhabited Policy := ⟨.noGc⟩

/-- Whether a policy collects nothing because none is set. -/
def isNoGc : Policy → Bool
  | noGc => true
  | _ => false

mutual

/-- Whether two policies are the same tree, children in order and leaves equal as numbers. -/
def same : Policy → Policy → Bool
  | noGc, noGc => true
  | maxAge a, maxAge b => a.same b
  | maxVersions a, maxVersions b => a.same b
  | combined m as, combined n bs => m = n && sameAll as bs
  | _, _ => false
termination_by structural a => a

/-- Whether two lists of policies are the same one by one. -/
def sameAll : List Policy → List Policy → Bool
  | [], [] => true
  | a :: as, b :: bs => same a b && sameAll as bs
  | _, _ => false
termination_by structural as => as

end

end Policy

end Retention
