import Installer.Text.Number

/-! # Code pages

A code page is given by its number or by the name it has on the web. -/

namespace Installer.CodePage

/-- The names of code pages, in lower case. -/
def webNames : List (String × Int) := [
  ("big5", 950), ("gb2312", 936), ("iso-8859-1", 28591), ("ks_c_5601-1987", 949),
  ("shift_jis", 932), ("us-ascii", 20127), ("utf-8", 65001), ("windows-1250", 1250),
  ("windows-1251", 1251), ("windows-1252", 1252)]

/-- The number of a code page. A text that is a number of 32 bits is never a name. -/
def parse? (s : String) : Option Int :=
  match Text.int32? s with
  | some n => if 0 ≤ n && n ≤ 65535 then some n else none
  | none => webNames.lookup (String.ofList (s.toList.map Char.toLower))

end Installer.CodePage
