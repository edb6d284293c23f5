/-!
# White space

Everything this library trims, it trims by one class: **the 25 code points that carry Unicode's
`White_Space` property.** Core's `Char.isWhitespace` knows four ASCII characters only, so a name
padded with a no-break space would keep its padding there. The class is a property of single
characters, and trimming is `List.dropWhile` over it from one end or both.
-/

set_option autoImplicit false

namespace FeatureTree
namespace Text

/-- A character with Unicode's `White_Space` property. -/
def isBlank (c : Char) : Bool :=
  let n := c.toNat
  (0x0009 ≤ n && n ≤ 0x000D) || n == 0x0020 || n == 0x0085 || n == 0x00A0 || n == 0x1680 ||
    (0x2000 ≤ n && n ≤ 0x200A) || n == 0x2028 || n == 0x2029 || n == 0x202F || n == 0x205F ||
    n == 0x3000

/-- Text of blanks only, the empty text among it. -/
def allBlank (s : String) : Bool :=
  s.toList.all isBlank

/-! ## Trimming -/

def trimStart (s : String) : String :=
  String.ofList (s.toList.dropWhile isBlank)

def trimEnd (s : String) : String :=
  String.ofList (s.toList.reverse.dropWhile isBlank).reverse

def trim (s : String) : String :=
  trimEnd (trimStart s)

end Text
end FeatureTree
