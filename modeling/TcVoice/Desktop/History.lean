import TcVoice.Server.Tcp

/-!
# The history of a channel

`apps/desktop/src-tauri/src/history.rs`: a file with a line of JSON for every message, which is
only ever appended to, and read from its start.

* `LineJson` — `serde_json`, for a line.
* `pieces`, `lineText` — the lines of a file, and their texts where the bytes are a text.
* `append`, `getHistory` — the code.
* `chatLines` — all lines of a file that are well formed, with `chatLines_append`: one more for
  every line that is appended.
* `getHistory_eq_iff` — **the last of them are answered exactly if none are behind a line that is
  no text**, but for repetitions; `later_line_lost` is a file where one is.
-/

namespace TcVoice
namespace Desktop

/-! ## Lines -/

/-- `LineKind`. -/
inductive LineKind where
  | chat
  | dm
  deriving DecidableEq, Repr

/-- `ChatLine`. -/
structure ChatLine where
  tsUnix : ℕ
  kind : LineKind
  «from» : String
  text : String
  deriving DecidableEq, Repr

/-- `serde_json`, for a line. -/
structure LineJson where
  toString : ChatLine → Option String
  fromStr : String → Option ChatLine

/-- A line feed. -/
def newline : UInt8 := 10

/-- What `read_until` splits bytes into: each piece up to a newline, and the rest. -/
def pieces : Bytes → List Bytes
  | [] => []
  | b :: bytes =>
    if b = newline then [b] :: pieces bytes
    else
      match pieces bytes with
      | [] => [[b]]
      | piece :: rest => (b :: piece) :: rest

/-- A line without its end, which is a newline or a carriage return and a newline. -/
def chomp (s : String) : String :=
  let chars := s.toList
  if chars.getLast? = some '\n' then
    let chars := chars.dropLast
    .ofList (if chars.getLast? = some '\r' then chars.dropLast else chars)
  else s

/-- The text of a line, if its bytes are UTF-8. -/
def lineText (piece : Bytes) : Option String :=
  (String.fromUTF8? piece.toByteArray).map chomp

section History

variable (json : LineJson)

/-- `append_inner`, on the bytes of the file. -/
def append (file : Bytes) (line : ChatLine) : Bytes :=
  match json.toString line with
  | none => file
  | some s => file ++ (s ++ "\n").toUTF8.data.toList

/-- What a line is read as, unless it is blank. -/
def parseLine (raw : String) : Option ChatLine :=
  if Server.trim raw = "" then none else json.fromStr raw

/-- `get_history`, of a file that does not exist, cannot be opened, or has these bytes in it. -/
def getHistory (path : String) (file : Option (Except String Bytes)) (limit : Option ℕ) :
    Except String (List ChatLine) :=
  let limit := min (limit.getD 50) 500
  match file with
  | none => .ok []
  | some (.error e) => .error ("open " ++ path ++ ": " ++ e)
  | some (.ok bytes) =>
    -- `map_while` stops at the first line that is no text.
    let texts := (((pieces bytes).map lineText).takeWhile Option.isSome).filterMap id
    let lines := texts.filterMap (parseLine json)
    .ok (lines.drop (lines.length - limit))

/-! ## What is in a file -/

/-- A well-formed line: a text, and not a blank one, which is read as a line of the chat. -/
def chatLine (piece : Bytes) : Option ChatLine := (lineText piece).bind (parseLine json)

/-- The well-formed lines of a file. -/
def chatLines (file : Bytes) : List ChatLine := (pieces file).filterMap (chatLine json)

/-- The last ones of a list. -/
def lastLines (n : ℕ) (lines : List ChatLine) : List ChatLine := lines.drop (lines.length - n)

/-- The well-formed lines in front of the first line that is no text. -/
def shown (file : Bytes) : List ChatLine :=
  ((pieces file).takeWhile fun piece => (lineText piece).isSome).filterMap (chatLine json)

/-- Those behind it. -/
def hidden (file : Bytes) : List ChatLine :=
  ((pieces file).dropWhile fun piece => (lineText piece).isSome).filterMap (chatLine json)

variable {json}

theorem chatLines_eq (file : Bytes) :
    chatLines json file = shown json file ++ hidden json file := by
  unfold chatLines shown hidden
  rw [← List.filterMap_append, List.takeWhile_append_dropWhile]

/-- What is read of a file is what is in front of that line. -/
theorem getHistory_eq (path : String) (file : Bytes) (limit : Option ℕ) :
    getHistory json path (some (.ok file)) limit =
      .ok (lastLines (min (limit.getD 50) 500) (shown json file)) := by
  have hread : ((((pieces file).map lineText).takeWhile Option.isSome).filterMap id).filterMap
      (parseLine json) = shown json file := by
    unfold shown chatLine
    rw [List.takeWhile_map, List.filterMap_map, List.filterMap_filterMap]
    rfl
  unfold getHistory lastLines
  dsimp only
  rw [hread]

/-! ## Appending -/

/-- What `serde_json` does with a line: it writes a text in one line, which is not blank and does
not end in a carriage return, and reads it back. -/
def LineJson.ReadsBack (json : LineJson) (line : ChatLine) : Prop :=
  ∃ s, json.toString line = some s ∧ json.fromStr s = some line ∧
    newline ∉ s.toUTF8.data.toList ∧ Server.trim s ≠ "" ∧ s.toList.getLast? ≠ some '\r'

theorem pieces_ne_nil {bytes : Bytes} (h : bytes ≠ []) : pieces bytes ≠ [] := by
  cases bytes with
  | nil => exact absurd rfl h
  | cons b bytes =>
    unfold pieces
    split
    · exact List.cons_ne_nil _ _
    · split <;> exact List.cons_ne_nil _ _

/-- Lines that are all ended by a newline are those of a file, whatever comes behind them. -/
theorem pieces_append (file rest : Bytes) (hend : file = [] ∨ file.getLast? = some newline) :
    pieces (file ++ rest) = pieces file ++ pieces rest := by
  induction file with
  | nil => rfl
  | cons b file ih =>
    have hlast : (b :: file).getLast? = some newline := hend.resolve_left (List.cons_ne_nil _ _)
    by_cases hfile : file = []
    · subst hfile
      have hb : b = newline := Option.some.inj hlast
      simp only [List.singleton_append, pieces, hb, if_true]
    · have hrest := ih (.inr ((List.getLast?_cons_of_ne_nil hfile).symm.trans hlast))
      obtain ⟨piece, more, hpieces⟩ := List.exists_cons_of_ne_nil (pieces_ne_nil hfile)
      rw [hpieces, List.cons_append] at hrest
      simp only [List.cons_append, pieces, hrest, hpieces]
      split <;> rfl

theorem pieces_line {line : Bytes} (h : newline ∉ line) :
    pieces (line ++ [newline]) = [line ++ [newline]] := by
  induction line with
  | nil => rfl
  | cons b line ih =>
    rw [List.mem_cons, not_or] at h
    simp only [List.cons_append, pieces, ih h.2, if_neg (Ne.symm h.1)]

/-- The text of a line that was written. -/
theorem lineText_toUTF8 {s : String} (h : s.toList.getLast? ≠ some '\r') :
    lineText (s ++ "\n").toUTF8.data.toList = some s := by
  have hbytes : (s ++ "\n").toUTF8.data.toList.toByteArray = (s ++ "\n").toByteArray := by
    apply ByteArray.ext
    rw [List.data_toByteArray, Array.toArray_toList, String.toUTF8_eq_toByteArray]
  have hdecode : String.fromUTF8? (s ++ "\n").toByteArray = some (s ++ "\n") := by
    unfold String.fromUTF8?
    rw [dif_pos (s ++ "\n").isValidUTF8]
    rfl
  have hchomp : chomp (s ++ "\n") = s := by
    have hchars : (s ++ "\n").toList = s.toList ++ ['\n'] := String.toList_append
    unfold chomp
    dsimp only
    rw [hchars, List.getLast?_concat, if_pos rfl, List.dropLast_concat, if_neg h,
      String.ofList_toList]
  unfold lineText
  rw [hbytes, hdecode, Option.map_some, hchomp]

/-- **A line that is appended is one more well-formed line.** -/
theorem chatLines_append {line : ChatLine} (hline : json.ReadsBack line) {file : Bytes}
    (hend : file = [] ∨ file.getLast? = some newline) :
    chatLines json (append json file line) = chatLines json file ++ [line] := by
  obtain ⟨s, hwrite, hread, hone, hblank, hlast⟩ := hline
  have hfile : append json file line = file ++ (s ++ "\n").toUTF8.data.toList := by
    unfold append
    rw [hwrite]
  have hbytes : (s ++ "\n").toUTF8.data.toList = s.toUTF8.data.toList ++ [newline] := by
    simp only [String.toUTF8_eq_toByteArray, String.toByteArray_append, ByteArray.data_append,
      Array.toList_append]
    rfl
  have hchat : chatLine json (s.toUTF8.data.toList ++ [newline]) = some line := by
    unfold chatLine parseLine
    rw [← hbytes, lineText_toUTF8 hlast, Option.bind_some, if_neg hblank, hread]
  unfold chatLines
  rw [hfile, hbytes, pieces_append file _ hend, pieces_line hone, List.filterMap_append,
    List.filterMap_cons_some hchat]
  rfl

/-! ## What is answered -/

/-- The last `k` lines are each the same as the one so many lines before it. -/
def Repeats (k : ℕ) (lines : List ChatLine) (shift : ℕ) : Prop :=
  k + shift ≤ lines.length ∧
    ∀ i < k, lines[lines.length - 1 - i]? = lines[lines.length - 1 - i - shift]?

theorem length_lastLines (k : ℕ) (lines : List ChatLine) :
    (lastLines k lines).length = min k lines.length := by
  unfold lastLines
  rw [List.length_drop]
  omega

theorem getElem?_lastLines (k : ℕ) (lines : List ChatLine) (j : ℕ) :
    (lastLines k lines)[j]? = lines[lines.length - k + j]? := by
  unfold lastLines
  rw [List.getElem?_drop]

/-- The last lines of a part are those of the whole, exactly if they are repeated. -/
theorem lastLines_append_iff (k : ℕ) (front back : List ChatLine) :
    lastLines k front = lastLines k (front ++ back) ↔
      k = 0 ∨ back = [] ∨ Repeats k (front ++ back) back.length := by
  by_cases hk : k = 0
  · refine iff_of_true ?_ (.inl hk)
    rw [hk]
    unfold lastLines
    rw [Nat.sub_zero, Nat.sub_zero, List.drop_length, List.drop_length]
  by_cases hback : back = []
  · refine iff_of_true ?_ (.inr (.inl hback))
    rw [hback, List.append_nil]
  have hpos : 0 < back.length := List.length_pos_of_ne_nil hback
  have htotal : (front ++ back).length = front.length + back.length := List.length_append
  -- The `j`-th of the last lines, in the part and in the whole.
  have hfront : ∀ j, k ≤ front.length → j < k →
      (lastLines k front)[j]? = (front ++ back)[front.length - k + j]? := by
    intro j hle hj
    rw [getElem?_lastLines, List.getElem?_append_left (by omega)]
  have hwhole : ∀ j, (lastLines k (front ++ back))[j]? =
      (front ++ back)[front.length + back.length - k + j]? := by
    intro j
    rw [getElem?_lastLines, htotal]
  unfold Repeats
  rw [htotal]
  constructor
  · intro heq
    have hle : k ≤ front.length := by
      have hlen := congrArg List.length heq
      rw [length_lastLines, length_lastLines, htotal] at hlen
      omega
    refine .inr (.inr ⟨by omega, fun i hi => ?_⟩)
    have hsame : (lastLines k front)[k - 1 - i]? = (lastLines k (front ++ back))[k - 1 - i]? := by
      rw [heq]
    rw [hfront _ hle (by omega), hwhole] at hsame
    have hplace : front.length + back.length - k + (k - 1 - i) =
        front.length + back.length - 1 - i := by omega
    have hshift : front.length - k + (k - 1 - i) =
        front.length + back.length - 1 - i - back.length := by omega
    rw [hplace, hshift] at hsame
    exact hsame.symm
  · intro h
    obtain ⟨hle, hrepeat⟩ := (h.resolve_left hk).resolve_left hback
    apply List.ext_getElem?
    intro j
    by_cases hj : j < k
    · have hsame := hrepeat (k - 1 - j) (by omega)
      have hplace : front.length + back.length - 1 - (k - 1 - j) =
          front.length + back.length - k + j := by omega
      have hshift : front.length + back.length - k + j - back.length =
          front.length - k + j := by omega
      rw [hplace, hshift] at hsame
      rw [hfront j (by omega) hj, hwhole, hsame]
    · rw [List.getElem?_eq_none, List.getElem?_eq_none]
      · rw [length_lastLines]
        omega
      · rw [length_lastLines]
        omega

variable (json) in
/-- **The history that is answered** is that of the well-formed lines of a file exactly if nothing
is asked for, if none of them is behind the first line that is no text, or if the last of them are
the same, one by one, as those so many lines before. -/
theorem getHistory_eq_iff (path : String) (file : Bytes) (limit : Option ℕ) :
    let k := min (limit.getD 50) 500
    getHistory json path (some (.ok file)) limit = .ok (lastLines k (chatLines json file)) ↔
      k = 0 ∨ hidden json file = [] ∨
        Repeats k (chatLines json file) (hidden json file).length := by
  intro k
  rw [getHistory_eq, chatLines_eq, ← lastLines_append_iff]
  exact ⟨Except.ok.inj, congrArg Except.ok⟩

end History

/-! ## A line that is no text -/

def sampleFirst : ChatLine := ⟨1, .chat, "ann", "hi"⟩

def sampleSecond : ChatLine := ⟨2, .chat, "bob", "hello"⟩

/-- `serde_json`, as far as these go. -/
def sampleLineJson : LineJson where
  toString line :=
    if line = sampleFirst then
      some "\x7b\"ts_unix\":1,\"kind\":\"chat\",\"from\":\"ann\",\"text\":\"hi\"\x7d"
    else if line = sampleSecond then
      some "\x7b\"ts_unix\":2,\"kind\":\"chat\",\"from\":\"bob\",\"text\":\"hello\"\x7d"
    else none
  fromStr raw :=
    if raw = "\x7b\"ts_unix\":1,\"kind\":\"chat\",\"from\":\"ann\",\"text\":\"hi\"\x7d" then
      some sampleFirst
    else if raw =
        "\x7b\"ts_unix\":2,\"kind\":\"chat\",\"from\":\"bob\",\"text\":\"hello\"\x7d" then
      some sampleSecond
    else none

/-- Two lines that were appended, with a line of one byte that is no text between them. -/
def sampleHistory : Bytes :=
  append sampleLineJson (append sampleLineJson [] sampleFirst ++ [0xFF, newline]) sampleSecond

/-- The second of them is lost, though it is read back. -/
theorem later_line_lost :
    sampleLineJson.ReadsBack sampleFirst ∧ sampleLineJson.ReadsBack sampleSecond ∧
      getHistory sampleLineJson "history.jsonl" (some (.ok sampleHistory)) none =
        .ok [sampleFirst] ∧
      getHistory sampleLineJson "history.jsonl" (some (.ok sampleHistory)) none ≠
        .ok (lastLines 50 (chatLines sampleLineJson sampleHistory)) := by
  have hshown : shown sampleLineJson sampleHistory = [sampleFirst] := by decide +kernel
  have hall : chatLines sampleLineJson sampleHistory = [sampleFirst, sampleSecond] := by
    decide +kernel
  have hanswer : getHistory sampleLineJson "history.jsonl" (some (.ok sampleHistory)) none =
      .ok [sampleFirst] := by
    rw [getHistory_eq, hshown]
    rfl
  refine ⟨⟨_, rfl, by decide +kernel, by decide +kernel, by decide +kernel, by decide +kernel⟩,
    ⟨_, rfl, by decide +kernel, by decide +kernel, by decide +kernel, by decide +kernel⟩,
    hanswer, ?_⟩
  rw [hanswer, hall]
  exact fun heq => absurd (Except.ok.inj heq) (by decide)

end Desktop
end TcVoice
