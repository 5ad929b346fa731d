/-!
Comparison of texts without regard to the case of ASCII letters.
-/

namespace Tripwire.Text

/-- Whether two texts agree up to the case of ASCII letters. -/
def sameLetters (a b : String) : Bool := a.toList.map Char.toLower = b.toList.map Char.toLower

end Tripwire.Text
