/-!
A word is a signed 64-bit integer, the only kind of value that a machine knows: its cells, its
registers, its inputs and its outputs. Sums and products of words wrap.
-/
namespace Intcode

abbrev Word := Int64

namespace Word

/-- In decimal, with a minus sign in front of a negative word. -/
def text (word : Word) : String := word.toInt.repr

end Word

end Intcode
