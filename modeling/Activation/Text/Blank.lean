/-!
# Blank text

The white space of Unicode (the property `White_Space`), and texts that hold nothing else.
-/

namespace Activation.Text

def isWhiteSpace (c : Char) : Bool :=
  let code := c.toNat
  (9 ≤ code && code ≤ 13) || code == 0x20 || code == 0x85 || code == 0xa0 || code == 0x1680 ||
    (0x2000 ≤ code && code ≤ 0x200a) || code == 0x2028 || code == 0x2029 || code == 0x202f ||
    code == 0x205f || code == 0x3000

def isBlank (text : String) : Bool := text.toList.all isWhiteSpace

end Activation.Text
