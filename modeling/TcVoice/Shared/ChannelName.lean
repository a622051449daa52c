import Mathlib.Data.List.DropRight
import TcVoice.Shared.Protocol

/-!
# Names of public channels

`sanitize_channel_name` of `crates/shared/src/protocol.rs`, which brings a name
into the one form that clients and server agree on.

* `sanitizeChannelName_eq_self_iff` — the names that are in that form already.
* `sanitizeChannelName_idem` — **sanitising twice is sanitising once**.
* `Canonical` — what the name of a public channel is meant to be.
-/

namespace TcVoice

/-! ## Sanitising -/

/-- `char::to_lowercase`, as far as the filter after it can tell.  Outside of ASCII only the
dotted capital I and the Kelvin sign have a letter of ASCII in their lowercase; any other
character is dropped by the filter in either case and stands for its lowercase here. -/
def toLowercase (c : Char) : List Char :=
  if c = Char.ofNat 0x130 then ['i', Char.ofNat 0x307]
  else if c = Char.ofNat 0x212a then ['k']
  else [c.toLower]

/-- What the filter keeps: `[a-z0-9-]`. -/
def isNameChar (c : Char) : Bool := c.isLower || c.isDigit || c == '-'

/-- `str::trim_matches`. -/
def trimMatches (p : Char → Bool) (l : List Char) : List Char := (l.dropWhile p).rdropWhile p

/-- `sanitize_channel_name`. -/
def sanitizeChannelName (s : String) : String :=
  String.ofList (trimMatches (· == '-') ((s.toList.flatMap toLowercase).filter isNameChar))

/-! ## Names that are sanitised already -/

section Trim

variable {p : Char → Bool} {l : List Char}

/-- There is something to trim at neither end. -/
def Trimmed (p : Char → Bool) (l : List Char) : Prop :=
  ∀ h : l ≠ [], ¬ p (l.head h) ∧ ¬ p (l.getLast h)

theorem trimMatches_prefix_dropWhile : trimMatches p l <+: l.dropWhile p :=
  List.rdropWhile_prefix p _

theorem mem_of_mem_trimMatches {c : Char} (h : c ∈ trimMatches p l) : c ∈ l :=
  (List.dropWhile_sublist p).subset ((trimMatches_prefix_dropWhile (p := p)).subset h)

theorem trimmed_trimMatches : Trimmed p (trimMatches p l) := by
  intro h
  refine ⟨?_, List.rdropWhile_last_not _ _ h⟩
  have hne : l.dropWhile p ≠ [] := by
    intro hnil
    rw [trimMatches, hnil] at h
    exact h rfl
  rw [(trimMatches_prefix_dropWhile (p := p)).head h]
  exact Bool.eq_false_iff.1 (List.head_dropWhile_not p hne)

theorem trimMatches_of_trimmed (h : Trimmed p l) : trimMatches p l = l := by
  have hfront : l.dropWhile p = l := by
    cases l with
    | nil => rfl
    | cons c l => exact List.dropWhile_cons_of_neg (h (by simp)).1
  rw [trimMatches, hfront, List.rdropWhile_eq_self_iff]
  exact fun hne => (h hne).2

end Trim

theorem isLower_iff {c : Char} : c.isLower = true ↔ 'a'.val ≤ c.val ∧ c.val ≤ 'z'.val :=
  Bool.and_eq_true_iff.trans (and_congr decide_eq_true_iff decide_eq_true_iff)

/-- A character of a name is its own lowercase. -/
theorem toLowercase_of_isNameChar {c : Char} (h : isNameChar c = true) : toLowercase c = [c] := by
  have hne : ∀ d : Char, isNameChar d = false → c ≠ d := by
    rintro d hd rfl
    rw [h] at hd
    cases hd
  have hup : ¬ (c.val ≥ 'A'.val ∧ c.val ≤ 'Z'.val) := by
    rintro ⟨hA, hZ⟩
    simp only [isNameChar, Bool.or_eq_true, beq_iff_eq, isLower_iff, Char.isDigit,
      Bool.and_eq_true, decide_eq_true_eq] at h
    rcases h with (h | h) | rfl
    · exact absurd (UInt32.le_trans h.1 hZ) (by decide)
    · exact absurd (UInt32.le_trans hA h.2) (by decide)
    · exact absurd hA (by decide)
  have hlower : c.toLower = c := dif_neg hup
  rw [toLowercase, if_neg (hne _ (by decide)), if_neg (hne _ (by decide)), hlower]

theorem flatMap_toLowercase {l : List Char} (h : ∀ c ∈ l, isNameChar c = true) :
    l.flatMap toLowercase = l := by
  induction l with
  | nil => rfl
  | cons c l ih =>
    rw [List.flatMap_cons, toLowercase_of_isNameChar (h c List.mem_cons_self),
      ih fun d hd => h d (List.mem_cons_of_mem _ hd), List.singleton_append]

theorem isNameChar_of_mem_sanitizeChannelName {s : String} {c : Char}
    (h : c ∈ (sanitizeChannelName s).toList) : isNameChar c = true := by
  rw [sanitizeChannelName, String.toList_ofList] at h
  exact (List.mem_filter.1 (mem_of_mem_trimMatches h)).2

theorem trimmed_sanitizeChannelName (s : String) :
    Trimmed (· == '-') (sanitizeChannelName s).toList := by
  rw [sanitizeChannelName, String.toList_ofList]
  exact trimmed_trimMatches

/-- **Exactly the names of `[a-z0-9-]` with no dash at either end are left as they are.** -/
theorem sanitizeChannelName_eq_self_iff {s : String} :
    sanitizeChannelName s = s ↔
      (∀ c ∈ s.toList, isNameChar c = true) ∧ Trimmed (· == '-') s.toList := by
  constructor
  · intro h
    rw [← h]
    exact ⟨fun c => isNameChar_of_mem_sanitizeChannelName, trimmed_sanitizeChannelName s⟩
  · rintro ⟨hchars, htrim⟩
    rw [sanitizeChannelName, flatMap_toLowercase hchars, List.filter_eq_self.2 hchars,
      trimMatches_of_trimmed htrim, String.ofList_toList]

/-- **Sanitising is idempotent.** -/
theorem sanitizeChannelName_idem (s : String) :
    sanitizeChannelName (sanitizeChannelName s) = sanitizeChannelName s :=
  sanitizeChannelName_eq_self_iff.2
    ⟨fun _ => isNameChar_of_mem_sanitizeChannelName, trimmed_sanitizeChannelName s⟩

example : sanitizeChannelName "--My Channel!" = "mychannel" := by decide

/-! ## Canonical names -/

/-- A name that a public channel is meant to have: sanitised, and neither empty nor too long. -/
structure Canonical (name : String) : Prop where
  fixed : sanitizeChannelName name = name
  ne_empty : name ≠ ""
  length_le : name.toList.length ≤ Config.maxChannelNameLen

instance (name : String) : Decidable (Canonical name) :=
  decidable_of_iff (sanitizeChannelName name = name ∧ name ≠ "" ∧
      name.toList.length ≤ Config.maxChannelNameLen)
    ⟨fun h => ⟨h.1, h.2.1, h.2.2⟩, fun h => ⟨h.fixed, h.ne_empty, h.length_le⟩⟩

end TcVoice
