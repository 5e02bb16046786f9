/-!
# Words

Numbers of nodes and positions are 64-bit words.
-/

namespace FlowDoc

/-- The least number that does not fit a word. -/
def wordBound : Nat := 0x10000000000000000

end FlowDoc
