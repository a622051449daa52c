import Mathlib.Data.List.DropRight
import TcVoice.Shared.ChannelName
import TcVoice.Shared.Config

/-!
# Invite links

`crates/shared/src/invite.rs`: the link that a server is passed on with, and what it is read as.

* `hasPort`, `inviteUrl`, `parseLink` — the code.
* `Address` — what a server can be called: a host, or an IPv6 literal with brackets or without.
* `withPort_text` — the port is told from the colons of a literal in every such address.
* `parseLink_inviteUrl` — **a link is read as what it was built from**, and an address that was
  read stays as it is.
-/

namespace TcVoice

/-! ## Building and parsing -/

/-- `has_port`: what follows the last bracket begins with a colon, or there is exactly one. -/
def hasPort (addr : String) : Bool :=
  let chars := addr.toList
  if ']' ∈ chars then (chars.rtakeWhile (· != ']')).head? == some ':'
  else chars.count ':' == 1

/-- What both `invite_url` and `parse_link` make of an address: the port is filled in, and a
literal without brackets gets them. -/
def withPort (addr : String) : String :=
  if hasPort addr then addr
  else if ':' ∈ addr.toList ∧ addr.toList.head? ≠ some '[' then
    "[" ++ addr ++ "]:" ++ toString Config.tcpPort
  else addr ++ ":" ++ toString Config.tcpPort

/-- `invite_url`. -/
def inviteUrl (addr : String) (channel : Option String) : String :=
  let authority := withPort addr
  match channel with
  | some c => if c ≠ "" then "tc://" ++ authority ++ "/" ++ c else "tc://" ++ authority
  | none => "tc://" ++ authority

/-- `strip_prefix`. -/
def stripPrefix (p raw : String) : Option (List Char) :=
  if p.toList.isPrefixOf raw.toList then some (raw.toList.drop p.toList.length) else none

/-- `parse_link`. -/
def parseLink (raw : String) : Option (String × Option String) :=
  match (stripPrefix "tc://" raw).or (stripPrefix "TC://" raw) with
  | none => none
  | some rest =>
    let authority := rest.takeWhile (· != '/')
    let path := (rest.dropWhile (· != '/')).tail
    if authority.isEmpty then none
    else
      let channel := trimMatches (· == '/') path
      some (withPort (.ofList authority),
        if channel.isEmpty then none else some (.ofList channel))

/-! ## Addresses -/

/-- A host name, or an IPv4 literal. -/
structure HostName where
  text : String
  ne_empty : text ≠ ""
  plain : ∀ c ∈ text.toList, c ≠ ':' ∧ c ≠ '[' ∧ c ≠ ']' ∧ c ≠ '/'

/-- An IPv6 literal, with a zone or without. -/
structure Ipv6 where
  text : String
  colons : 2 ≤ text.toList.count ':'
  plain : ∀ c ∈ text.toList, c ≠ '[' ∧ c ≠ ']' ∧ c ≠ '/'

/-- A port. -/
structure PortText where
  text : String
  plain : ∀ c ∈ text.toList, c ≠ ':' ∧ c ≠ '[' ∧ c ≠ ']' ∧ c ≠ '/'

/-- The id of a channel, as it stands in a link. -/
structure ChannelText where
  text : String
  plain : ∀ c ∈ text.toList, isNameChar c = true

/-- What a server can be called. -/
inductive Address where
  | host (name : HostName) (port : Option PortText)
  | bare (literal : Ipv6)
  | bracketed (literal : Ipv6) (port : Option PortText)

/-- A port, with the colon in front of it. -/
def portSuffix : Option PortText → String
  | none => ""
  | some port => ":" ++ port.text

theorem toList_tcpPort : (toString Config.tcpPort).toList = ['7', '1', '0', '0'] := rfl

/-- The port that is filled in. -/
def PortText.default : PortText where
  text := toString Config.tcpPort
  plain := by
    rw [toList_tcpPort]
    simp

namespace Address

/-- How an address is written. -/
def text : Address → String
  | host name port => name.text ++ portSuffix port
  | bare literal => literal.text
  | bracketed literal port => "[" ++ literal.text ++ "]" ++ portSuffix port

/-- The address with brackets and a port. -/
def dialable : Address → Address
  | host name port => host name (some (port.getD .default))
  | bare literal => bracketed literal (some .default)
  | bracketed literal port => bracketed literal (some (port.getD .default))

theorem dialable_dialable (addr : Address) : addr.dialable.dialable = addr.dialable := by
  cases addr <;> rfl

end Address

/-! ## Where the port is -/

section Port

theorem head?_portSuffix (port : PortText) :
    (portSuffix (some port)).toList.head? = some ':' := by
  show (":" ++ port.text).toList.head? = _
  rw [String.toList_append]
  rfl

/-- There is no bracket and no slash in a port. -/
theorem mem_portSuffix {port : Option PortText} {c : Char} (h : c ∈ (portSuffix port).toList) :
    c ≠ '[' ∧ c ≠ ']' ∧ c ≠ '/' := by
  cases port with
  | none => cases h
  | some port =>
    rw [portSuffix, String.toList_append, List.mem_append] at h
    rcases h with h | h
    · rw [List.mem_singleton.1 h]
      decide
    · exact (port.plain c h).2

theorem count_portSuffix (port : Option PortText) :
    (portSuffix port).toList.count ':' = if port.isSome then 1 else 0 := by
  cases port with
  | none => rfl
  | some port =>
    have hnone : port.text.toList.count ':' = 0 :=
      List.count_eq_zero.2 fun hmem => (port.plain ':' hmem).1 rfl
    rw [portSuffix, String.toList_append, List.count_append, hnone]
    rfl

/-- In a host without brackets, a colon is in front of the port. -/
theorem hasPort_host (name : HostName) (port : Option PortText) :
    hasPort (Address.host name port).text = port.isSome := by
  have hbracket : ']' ∉ (name.text ++ portSuffix port).toList := by
    rw [String.toList_append, List.mem_append, not_or]
    exact ⟨fun hmem => (name.plain ']' hmem).2.2.1 rfl, fun hmem => (mem_portSuffix hmem).2.1 rfl⟩
  have hname : name.text.toList.count ':' = 0 :=
    List.count_eq_zero.2 fun hmem => (name.plain ':' hmem).1 rfl
  unfold hasPort Address.text
  dsimp only
  rw [if_neg hbracket, String.toList_append, List.count_append, hname, count_portSuffix]
  cases port <;> rfl

/-- In a bare literal, colons are not. -/
theorem hasPort_bare (literal : Ipv6) : hasPort (Address.bare literal).text = false := by
  have hbracket : ']' ∉ literal.text.toList := fun hmem => (literal.plain ']' hmem).2.1 rfl
  have hcolons := literal.colons
  unfold hasPort Address.text
  dsimp only
  rw [if_neg hbracket, beq_eq_false_iff_ne]
  omega

/-- Behind a bracket, a colon is. -/
theorem hasPort_bracketed (literal : Ipv6) (port : Option PortText) :
    hasPort (Address.bracketed literal port).text = port.isSome := by
  have htext : (Address.bracketed literal port).text.toList =
      ("[" ++ literal.text).toList ++ ']' :: (portSuffix port).toList := by
    unfold Address.text
    rw [String.toList_append, String.toList_append, List.append_assoc]
    rfl
  have hafter : (("[" ++ literal.text).toList ++ ']' :: (portSuffix port).toList).rtakeWhile
      (· != ']') = (portSuffix port).toList := by
    have hplain : ∀ c ∈ (portSuffix port).toList.reverse, (c != ']') = true := by
      intro c hc
      exact bne_iff_ne.2 (mem_portSuffix (List.mem_reverse.1 hc)).2.1
    unfold List.rtakeWhile
    rw [List.reverse_append, List.reverse_cons, List.append_assoc,
      List.takeWhile_append_of_pos hplain, List.singleton_append,
      List.takeWhile_cons_of_neg (by decide), List.append_nil, List.reverse_reverse]
  unfold hasPort
  dsimp only
  rw [htext, if_pos (List.mem_append_right _ List.mem_cons_self), hafter]
  cases port with
  | none => rfl
  | some port => rw [head?_portSuffix]; rfl

/-- **Every address is made dialable** by what the colons in it are taken for. -/
theorem withPort_text (addr : Address) : withPort addr.text = addr.dialable.text := by
  unfold withPort
  cases addr with
  | host name port =>
    rw [hasPort_host]
    cases port with
    | some port => rfl
    | none =>
      have hcolon : ':' ∉ (name.text ++ "").toList := by
        rw [String.append_empty]
        exact fun hmem => (name.plain ':' hmem).1 rfl
      rw [if_neg nofun, if_neg fun h => hcolon h.1]
      show name.text ++ "" ++ ":" ++ toString Config.tcpPort =
        name.text ++ (":" ++ toString Config.tcpPort)
      rw [String.append_empty, String.append_assoc]
  | bare literal =>
    have hcolon : ':' ∈ literal.text.toList :=
      List.count_pos_iff.1 (Nat.lt_of_lt_of_le Nat.zero_lt_two literal.colons)
    have hhead : literal.text.toList.head? ≠ some '[' := fun hhead =>
      (literal.plain '[' (List.mem_of_mem_head? hhead)).1 rfl
    have hbracket : "]:" = "]" ++ ":" := rfl
    rw [hasPort_bare, if_neg nofun, if_pos ⟨hcolon, hhead⟩]
    show "[" ++ literal.text ++ "]:" ++ toString Config.tcpPort =
      "[" ++ literal.text ++ "]" ++ (":" ++ toString Config.tcpPort)
    rw [hbracket, ← String.append_assoc, ← String.append_assoc]
  | bracketed literal port =>
    rw [hasPort_bracketed]
    cases port with
    | some port => rfl
    | none =>
      have hhead : ("[" ++ literal.text ++ "]" ++ "").toList.head? = some '[' := by
        rw [String.append_empty, String.toList_append, String.toList_append]
        rfl
      rw [if_neg nofun, if_neg fun h => h.2 hhead]
      show "[" ++ literal.text ++ "]" ++ "" ++ ":" ++ toString Config.tcpPort =
        "[" ++ literal.text ++ "]" ++ (":" ++ toString Config.tcpPort)
      rw [String.append_empty, ← String.append_assoc]

end Port

/-! ## The round trip -/

section RoundTrip

/-- There is no slash in an address, and it is not empty. -/
theorem mem_text (addr : Address) :
    (∀ c ∈ addr.text.toList, c ≠ '/') ∧ addr.text.toList ≠ [] := by
  cases addr with
  | host name port =>
    unfold Address.text
    rw [String.toList_append]
    refine ⟨fun c hc => ?_, fun hnil => ?_⟩
    · rcases List.mem_append.1 hc with hc | hc
      · exact (name.plain c hc).2.2.2
      · exact (mem_portSuffix hc).2.2
    · exact name.ne_empty (String.toList_eq_nil_iff.1 (List.append_eq_nil_iff.1 hnil).1)
  | bare literal =>
    refine ⟨fun c hc => (literal.plain c hc).2.2, fun hnil => ?_⟩
    have hcolons := literal.colons
    rw [show literal.text.toList = [] from hnil] at hcolons
    cases hcolons
  | bracketed literal port =>
    unfold Address.text
    rw [String.toList_append, String.toList_append, String.toList_append]
    refine ⟨fun c hc => ?_, fun hnil => by cases hnil⟩
    rcases List.mem_append.1 hc with hc | hc
    · rcases List.mem_append.1 hc with hc | hc
      · rcases List.mem_append.1 hc with hc | hc
        · rw [List.mem_singleton.1 hc]
          decide
        · exact (literal.plain c hc).2.2
      · rw [List.mem_singleton.1 hc]
        decide
    · exact (mem_portSuffix hc).2.2

/-- What a link is read as that begins with an address. -/
theorem parseLink_text (addr : Address) (path : List Char)
    (hpath : path = [] ∨ path.head? = some '/') :
    parseLink ("tc://" ++ addr.text ++ .ofList path) = some (addr.dialable.text,
      let channel := trimMatches (· == '/') path.tail
      if channel.isEmpty then none else some (.ofList channel)) := by
  obtain ⟨hslash, hne⟩ := mem_text addr
  have hrest : stripPrefix "tc://" ("tc://" ++ addr.text ++ .ofList path) =
      some (addr.text.toList ++ path) := by
    unfold stripPrefix
    rw [String.toList_append, String.toList_append, List.append_assoc,
      if_pos (List.isPrefixOf_iff_prefix.2 (List.prefix_append _ _)), List.drop_left,
      String.toList_ofList]
  have hplain : ∀ c ∈ addr.text.toList, (c != '/') = true := fun c hc => bne_iff_ne.2 (hslash c hc)
  have hauthority : (addr.text.toList ++ path).takeWhile (· != '/') = addr.text.toList := by
    rw [List.takeWhile_append_of_pos hplain]
    rcases hpath with rfl | hpath
    · exact List.append_nil _
    · obtain ⟨rest, rfl⟩ := List.head?_eq_some_iff.1 hpath
      rw [List.takeWhile_cons_of_neg (by decide), List.append_nil]
  have hleft : (addr.text.toList ++ path).dropWhile (· != '/') = path := by
    rw [List.dropWhile_append_of_pos hplain]
    rcases hpath with rfl | hpath
    · rfl
    · obtain ⟨rest, rfl⟩ := List.head?_eq_some_iff.1 hpath
      exact List.dropWhile_cons_of_neg (by decide)
  have hempty : addr.text.toList.isEmpty = false := List.isEmpty_eq_false_iff.2 hne
  unfold parseLink
  rw [hrest]
  dsimp only [Option.some_or]
  rw [hauthority, hleft, hempty, String.ofList_toList, withPort_text]
  rfl

/-- What comes behind the address in a link. -/
def linkPath : Option ChannelText → List Char
  | none => []
  | some c => if c.text = "" then [] else '/' :: c.text.toList

/-- The channel that a link names: none for the empty id. -/
def named : Option ChannelText → Option String
  | none => none
  | some c => if c.text = "" then none else some c.text

theorem linkPath_head (channel : Option ChannelText) :
    linkPath channel = [] ∨ (linkPath channel).head? = some '/' := by
  unfold linkPath
  split
  · exact .inl rfl
  · split
    · exact .inl rfl
    · exact .inr rfl

/-- An invite begins with the dialable address. -/
theorem inviteUrl_text (addr : Address) (channel : Option ChannelText) :
    inviteUrl addr.text (channel.map (·.text)) =
      "tc://" ++ addr.dialable.text ++ .ofList (linkPath channel) := by
  have hplain : "tc://" ++ withPort addr.text =
      "tc://" ++ addr.dialable.text ++ .ofList [] := by
    rw [withPort_text, String.ofList_nil, String.append_empty]
  cases channel with
  | none => exact hplain
  | some c =>
    show (if c.text ≠ "" then "tc://" ++ withPort addr.text ++ "/" ++ c.text else _) = _
    unfold linkPath
    dsimp only
    by_cases hempty : c.text = ""
    · rw [if_neg (not_not_intro hempty), if_pos hempty]
      exact hplain
    · have hpath : String.ofList ('/' :: c.text.toList) = "/" ++ c.text := by
        rw [String.ofList_cons, String.ofList_toList]
        rfl
      rw [if_pos hempty, if_neg hempty, hpath, withPort_text, ← String.append_assoc]

/-- What comes behind it is read as the channel, which has no slash at its ends. -/
theorem trimMatches_linkPath (channel : Option ChannelText) :
    (let name := trimMatches (· == '/') (linkPath channel).tail
      if name.isEmpty then none else some (String.ofList name)) = named channel := by
  cases channel with
  | none => rfl
  | some c =>
    unfold linkPath named
    dsimp only
    by_cases hempty : c.text = ""
    · rw [if_pos hempty, if_pos hempty]
      rfl
    · have hslash : ∀ d ∈ c.text.toList, ¬ ((d == '/') = true) := by
        intro d hd heq
        have hname := c.plain d hd
        rw [beq_iff_eq.1 heq] at hname
        cases hname
      have htrim : trimMatches (· == '/') c.text.toList = c.text.toList :=
        trimMatches_of_trimmed fun hne =>
          ⟨hslash _ (List.head_mem hne), hslash _ (List.getLast_mem hne)⟩
      have hchars : c.text.toList.isEmpty = false :=
        List.isEmpty_eq_false_iff.2 fun hnil => hempty (String.toList_eq_nil_iff.1 hnil)
      rw [if_neg hempty, if_neg hempty, List.tail_cons, htrim, hchars, String.ofList_toList]
      rfl

/-- **An invite is read as what it was built from**: the address in its dialable form, whichever
way it was written, and the channel, if there is one; and the dialable form stays as it is. -/
theorem parseLink_inviteUrl (addr : Address) (channel : Option ChannelText) :
    parseLink (inviteUrl addr.text (channel.map (·.text))) =
        some (addr.dialable.text, named channel) ∧
      parseLink (inviteUrl addr.dialable.text (channel.map (·.text))) =
        some (addr.dialable.text, named channel) := by
  have hbuilt : ∀ addr : Address, parseLink (inviteUrl addr.text (channel.map (·.text))) =
      some (addr.dialable.text, named channel) := by
    intro addr
    rw [inviteUrl_text, parseLink_text _ _ (linkPath_head channel), addr.dialable_dialable,
      trimMatches_linkPath]
  refine ⟨hbuilt addr, ?_⟩
  rw [hbuilt addr.dialable, addr.dialable_dialable]

/-- A host with its port, and a channel. -/
example :
    let name : HostName := ⟨"vc.example", by decide, by simp⟩
    let port : PortText := ⟨"7200", by simp⟩
    let channel : ChannelText := ⟨"lobby-1", by simp [isNameChar]⟩
    parseLink (inviteUrl (Address.host name (some port)).text (some channel.text)) =
      some ("vc.example:7200", some "lobby-1") := by
  decide

/-- A bare IPv6 address. -/
example :
    let literal : Ipv6 := ⟨"fe80::1", by decide, by simp⟩
    parseLink (inviteUrl (Address.bare literal).text none) = some ("[fe80::1]:7100", none) := by
  decide

end RoundTrip

end TcVoice
