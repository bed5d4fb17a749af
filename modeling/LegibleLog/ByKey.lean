import Std.Data.TreeMap
import Std.Data.TreeMap.Lemmas

/-!
# Pairs by key

A list of pairs stands for a map in which the last pair of a key counts.  `byKey pairs` is its one canonical
arrangement: each key once, with its last value, in the order of the keys by code points, which is also the order of
their bytes.
-/

namespace LegibleLog

variable {α : Type}

/-- The pairs in the order of their keys, each key once with its last value. -/
def byKey (pairs : List (String × α)) : List (String × α) := (Std.TreeMap.ofList pairs compare).toList

/-- The keys ascend and none occurs twice. -/
def KeysAscend (pairs : List (String × α)) : Prop := pairs.Pairwise fun a b => compare a.1 b.1 = .lt

/-- The keys in order, each once. -/
def distinctKeys (keys : List String) : List String := (byKey (keys.map (·, ()))).map (·.1)

theorem keysAscend_byKey (pairs : List (String × α)) : KeysAscend (byKey pairs) :=
  Std.TreeMap.ordered_keys_toList

end LegibleLog
