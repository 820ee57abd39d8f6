import Retention.Rule

/-!
# Values of the wrong shape

What the admin API and the ledger show is taken as it comes. Where a value has no member at
all, is no list or cannot be shown, and the service needs to look inside it or to show it, that
is a fault of the value.
-/

namespace Retention

/-- What can be wrong with the shape of a value from outside. -/
inductive ShapeFault where
  | nullTable
  | nullMessage
  | nullFamily
  | nullRow
  | rulesNotList (mode : Mode)
  | hiddenSeconds
  | hidden

/-- A fault of shape in words. -/
def ShapeFault.message : ShapeFault → String
  | nullTable => "Cannot read properties of null (reading 'columnFamilies')"
  | nullMessage => "Cannot read properties of null (reading 'union')"
  | nullFamily => "Cannot read properties of null (reading 'gcRule')"
  | nullRow => "Cannot read properties of null (reading 'id')"
  | rulesNotList mode => "(rule." ++ mode.word ++ ".rules ?? []).map is not a function"
  | hiddenSeconds => "duration.seconds.toString is not a function"
  | hidden => "Cannot convert object to primitive value"

end Retention
