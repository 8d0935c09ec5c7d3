import Emis.Common.Json
import Emis.Library.Markup
import Emis.Numbering.Pattern

/-!
# HTML for PDFs

`modules/documents/domain/html.ts`.
-/

namespace Emis.Documents

def ESCAPES : List (Char × String) :=
  [('&', "&amp;"), ('<', "&lt;"), ('>', "&gt;"), ('\x22', "&quot;"), ('\'', "&#39;")]

/-- `ESCAPES[ch] ?? ch`. -/
def escapeChar (ch : Char) : Str := ((ESCAPES.lookup ch).map String.toList).getD [ch]

def escapeHtml (value : Str) : Str := value.flatMap escapeChar

/-- Markup that is already safe (e.g. an SVG we generated); `markup` leaves it as is. -/
structure Raw where
  value : Str

def raw (value : Str) : Raw := ⟨value⟩

/-- What stands between `${` and `}`; a number is its text. -/
inductive Interpolation
  | string (value : Str)
  | number (value : Str)
  | none
  | raw (value : Raw)
  | raws (values : List Raw)

def Interpolation.piece : Interpolation → Str
  | string value | number value => escapeHtml value
  | none => []
  | raw value => value.value
  | raws values => values.flatMap Raw.value

/-- A template literal without a tag. -/
def template (strings : List String) (values : List Str) : Str := Markup.weave strings values

def markup (strings : List String) (values : List Interpolation) : Raw :=
  raw (Markup.weave strings (values.map Interpolation.piece))

def isHexDigit (ch : Char) : Bool := ch.isDigit || ('a' ≤ ch && ch ≤ 'f') || ('A' ≤ ch && ch ≤ 'F')

/-- `/^#[0-9a-fA-F]{6}$/`. -/
def isColor : Str → Bool
  | [] => false
  | ch :: digits => ch == '#' && digits.length == 6 && digits.all isHexDigit

/-- A brand colour that is safe to put in CSS: a 6-digit hex, otherwise the fallback. -/
def safeColor (value : Str) (fallback : Str := "#1d4ed8".toList) : Str := if isColor value then value else fallback

example : (markup ["<p>", "</p>"] [.string "<b> & 'c'".toList]).value = "<p>&lt;b&gt; &amp; &#39;c&#39;</p>".toList := by
  decide

end Emis.Documents
