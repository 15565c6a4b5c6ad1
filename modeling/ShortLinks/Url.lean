import ShortLinks.Fault
import ShortLinks.Text.Blank

/-!
# Which texts are URLs

A text passes when a dot stands in it between two characters that are not blank. An optional
scheme and an optional `www.` in front of such a place change nothing, since what follows them
holds the place already; and what surrounds it does not matter.
-/

namespace ShortLinks.Url

/-- Some dot stands between two characters that are not blank. -/
def hasInnerDot : List Char → Bool
  | [] => false
  | x :: rest =>
    (match rest with
      | '.' :: y :: _ => !Text.isBlank x && !Text.isBlank y
      | _ => false) || hasInnerDot rest

/-- Accept a URL, or report why it is none. -/
def validate (url : String) : Except Fault Unit :=
  if url = "" then .error ⟨.invalidUrl, "URL cannot be empty"⟩
  else if hasInnerDot url.toList then .ok ()
  else .error ⟨.invalidUrl, "'" ++ url ++ "' is not a valid URL"⟩

end ShortLinks.Url
