/-!
# Request lines

A request line carries a method and a target. The target is a path, which starts with a slash
or an asterisk, or an address: a scheme of letters, two slashes, an authority, and then
perhaps a path or a query. A target that is left out is the slash alone. A line of another
form is refused before anything else is looked at.
-/

namespace Retention.Http.RequestLine

/-- Whether a character can be part of a target at all. -/
def isVisible (c : Char) : Bool := 0x20 < c.toNat && c.toNat ≠ 0x7F

/-- Whether a character can be part of an authority. -/
def isAuthorityChar (c : Char) : Bool :=
  c.isAlphanum || "-_.!~*'()%;:&=+$,[]@".toList.contains c

/-- Whether two at signs stand side by side. -/
def repeatsAt : List Char → Bool
  | '@' :: '@' :: _ => true
  | _ :: rest => repeatsAt rest
  | [] => false

/-- Whether a text after a scheme and two slashes can be part of a request line. -/
def isHierarchy (text : List Char) : Bool :=
  let authority := text.takeWhile isAuthorityChar
  let rest := text.dropWhile isAuthorityChar
  !repeatsAt authority && (rest.head?.all fun c => c = '/' || c = '?') && rest.all isVisible

/-- Whether a text can be the target in a request line. -/
def isTarget (text : List Char) : Bool :=
  match text with
  | [] => true
  | '/' :: _ | '*' :: _ => text.all isVisible
  | _ =>
    match text.takeWhile Char.isAlpha, text.dropWhile Char.isAlpha with
    | _ :: _, ':' :: '/' :: '/' :: rest => isHierarchy rest
    | _, _ => false

/-- A path of visible characters can be the target in a request line. -/
theorem isTarget_path {text : List Char} (h : ∀ c ∈ text, isVisible c = true) :
    isTarget ('/' :: text) = true := by
  simp only [isTarget, List.all_cons, Bool.and_eq_true, List.all_eq_true]
  exact ⟨by decide, h⟩

end Retention.Http.RequestLine
