import TcVoice.Server.Announcements

/-!
# Who the clients think is in the channel

A snapshot of the channel and the changes to it are taken and enqueued in separate
steps, so that a change can reach a client before the older snapshot does.

* `World.presence` — the server and its clients' lists as a `Presence`, where a list is
  what its client will make of its queue and of the snapshot under way to it.
* `RosterSafe` — a step tells no client of a change that the snapshot under way to it
  lacks, renames no name that a terminal lists twice, and hands out no name that is in
  use or still to be told of.
* `World.Move.presence` — **such a step is a step of the `Presence`**.
* `rosters_agree` — **in a run of such steps, once every handler has finished, every
  client lists exactly the clients in its channel**; `departed_peer_shown` is a run
  after which a client lists one that has left.
-/

namespace TcVoice
namespace Server

open Runs Table ServerState Client

/-! ## The lists, with the snapshots under way -/

namespace World

/-- The snapshot under way to a client. -/
def snapshotFor (w : World) (c : SocketAddr) : Option (List String) :=
  ((w.pending (some c)).filterMap snapshotIn).head?

/-- The list a client holds, or the snapshot that is to replace it. -/
def shown (kinds : SocketAddr → ClientKind) (w : World) (c : SocketAddr) : Option (List String) :=
  (w.senders.lookup c).map fun q => (w.snapshotFor c).getD (roster (kinds c) q)

/-- The server and its clients' lists, seen as parties that tell each other who is there. -/
def presence (kinds : SocketAddr → ClientKind) (w : World) :
    Presence SocketAddr ChannelId String where
  room := w.state.channelOf
  name := w.state.nameOf
  news a := (w.pending (some a)).filterMap newsIn
  view c := (w.shown kinds c).map names

end World

/-- What a step asks for the lists to come out right. -/
structure RosterSafe (kinds : SocketAddr → ClientKind) (w : World) (e : Env × World.Event) :
    Prop where
  /-- Nobody starts a sound check, whose channel has no list. -/
  noEcho : ∀ a, e.2 ≠ .request a .startEchoTest
  /-- The name handed to a new client is used by nobody. -/
  accepted : ∀ a n, e.2 = .accept a → (w.state.registerClient a).1 = .ok n →
    (w.presence kinds).Free a n
  /-- The name a client takes is used by nobody else. -/
  renamed : ∀ a n, e.2 = .request a (.setName n) → trim n ≠ "" →
    byteLen (trim n) ≤ Config.maxNameLen → (w.presence kinds).Free a (trim n)
  /-- What a client is told while a snapshot is under way to it is in the snapshot. -/
  inSnapshot : ∀ t action rest, e.2 = .advance t → w.pending t = action :: rest →
    ∀ c msg participants, action.addressed w.state c = some msg → c ∈ w.senders →
      (w.setPending t rest).snapshotFor c = some participants →
        names ((kinds c).handle participants msg) = names participants
  /-- A name that a terminal is told to rename is on its list at most once. -/
  renamesOnce : ∀ t action rest, e.2 = .advance t → w.pending t = action :: rest →
    ∀ c o n participants, action.addressed w.state c = some (.nameChanged o n) →
      w.shown kinds c = some participants → Renames (kinds c) participants o n

section Lemmas

variable {env : Env} {s s' : ServerState} {w w' : World} {a b c : SocketAddr} {t : Task}
  {action : Action} {rest acts : List Action} {x : News ChannelId String} {msg : ServerMessage}
  {kinds : SocketAddr → ClientKind} {ev : World.Event}

/-! ## Every step is a step of the presence -/

theorem snapshotFor_of_pending (h : w'.pending (some c) = w.pending (some c)) :
    w'.snapshotFor c = w.snapshotFor c := by
  rw [World.snapshotFor, h, World.snapshotFor]

theorem shown_congr (hs : w'.senders.lookup c = w.senders.lookup c)
    (hsnap : w'.snapshotFor c = w.snapshotFor c) : w'.shown kinds c = w.shown kinds c := by
  rw [World.shown, hs, hsnap, World.shown]

/-- Messages that no list depends on change no list. -/
theorem shown_of_plain {msgs : List ServerMessage}
    (hs : w'.senders.lookup c = (w.senders.lookup c).map (· ++ msgs))
    (hplain : ∀ ps, msgs.foldl (kinds c).handle ps = ps)
    (hsnap : w'.snapshotFor c = w.snapshotFor c) : w'.shown kinds c = w.shown kinds c := by
  rw [World.shown, hs, Option.map_map, hsnap, World.shown]
  refine congrArg (Option.map · _) (funext fun q => ?_)
  rw [Function.comp, roster, List.foldl_append, hplain, roster]

/-- Two worlds in which a client has the same queue and the same snapshot under way to it. -/
theorem view_congr (hs : w'.senders.lookup c = w.senders.lookup c)
    (hsnap : w'.snapshotFor c = w.snapshotFor c) :
    (w'.presence kinds).view c = (w.presence kinds).view c :=
  congrArg (Option.map names) (shown_congr hs hsnap)

theorem news_of_idle (hidle : w.pending (some a) = []) : (w.presence kinds).news a = [] := by
  show (w.pending (some a)).filterMap newsIn = []
  rw [hidle, List.filterMap_nil]

theorem snapshotFor_of_idle (hidle : w.pending (some a) = []) : w.snapshotFor a = none := by
  rw [World.snapshotFor, hidle]
  rfl

section Put

variable {conn : Connection}

theorem only_put (a : SocketAddr) (conn : Connection)
    (hroom : ∀ d, d ≠ a → s'.channelOf d = w.state.channelOf d)
    (hname : ∀ d, d ≠ a → s'.nameOf d = w.state.nameOf d) :
    Presence.Only a (w.presence kinds) ((w.put s' a conn).presence kinds) := by
  have hpend : ∀ d, d ≠ a → (w.put s' a conn).pending (some d) = w.pending (some d) := by
    intro d hd
    rw [World.pending_put, if_neg (by simpa using hd)]
  refine ⟨hroom, hname, fun d hd => ?_, fun d hd => ?_⟩
  · exact congrArg (List.filterMap newsIn) (hpend d hd)
  · exact view_congr rfl (snapshotFor_of_pending (hpend d hd))

theorem news_put :
    ((w.put s' a conn).presence kinds).news a = conn.pending.filterMap newsIn := by
  show ((w.put s' a conn).pending (some a)).filterMap newsIn = _
  rw [World.pending_put, if_pos rfl]

theorem snapshotFor_put :
    (w.put s' a conn).snapshotFor a = (conn.pending.filterMap snapshotIn).head? := by
  rw [World.snapshotFor, World.pending_put, if_pos rfl]

theorem filterMap_newsIn_announceName {ch : Option ChannelId} {o n : String} (ho : o ≠ "") :
    (announceName a ch o n).filterMap newsIn =
      .called o n :: (ch.map fun r => News.renamed r o n).toList := by
  cases ch <;> simp [announceName, newsIn, ho]

/-- **Whatever a request does about rooms and names is a step of the presence.** -/
theorem RoomChange.step {name name' : String} {cmsg : ClientMessage}
    (h : RoomChange w.state a name cmsg s' acts) (hb : Bounded w.state)
    (hidle : w.pending (some a) = [])
    (hname : a ∈ w.state.clients → w.state.nameOf a = some name)
    (hfree : ∀ n, cmsg = .setName n → trim n ≠ "" → byteLen (trim n) ≤ Config.maxNameLen →
      (w.presence kinds).Free a (trim n)) :
    (w.presence kinds).Step ((w.put s' a ⟨name', acts⟩).presence kinds) := by
  have hidle' : (w.presence kinds).news a = [] := news_of_idle hidle
  have hnosnap := snapshotFor_of_idle hidle
  cases h with
  | nothing hroom hnames hacts =>
    have ho : Presence.Only a (w.presence kinds) ((w.put s' a ⟨name', acts⟩).presence kinds) :=
      only_put a _ (fun d _ => hroom d) fun d _ => hnames d
    refine .quiet (funext hroom) (funext hnames) (funext fun d => ?_) fun c r _ => .inl ?_
    · by_cases hd : d = a
      · rw [hd, news_put, hidle', filterMap_newsIn_of_silent hacts]
      · exact ho.news d hd
    · by_cases hc : c = a
      · subst hc
        refine view_congr rfl ?_
        rw [snapshotFor_put, filterMap_snapshotIn_of_silent hacts, hnosnap]
        rfl
      · exact ho.view c hc
  | @enters ch participants token key push hin hout hroom hnames hall hpush =>
    have hn := hname hin
    refine .enter (only_put a _ (fun d hd => (hroom d).trans (if_neg hd)) fun d _ => hnames d)
      hout hn hidle' ((hroom a).trans (if_pos rfl)) ((hnames a).trans hn) ?_ fun S hS => ?_
    · rw [news_put]
      simp [List.filterMap_cons, newsIn, filterMap_newsIn_of_silent hpush]
    · obtain ⟨l, hl, rfl⟩ := Option.map_eq_some_iff.1 hS
      obtain ⟨q, -, rfl⟩ := Option.map_eq_some_iff.1 hl
      ext m
      rw [snapshotFor_put]
      exact hall m
  | @departs ch n push hin hn hroom hnames hpush =>
    refine .depart (only_put a _ (fun d hd => (hroom d).trans (if_neg hd)) fun d _ => hnames d)
      hin hn hidle' ((hroom a).trans (if_pos rfl)) (.inl ((hnames a).trans hn)) ?_
    rw [news_put]
    simp [List.filterMap_cons, newsIn, filterMap_newsIn_of_silent hpush]
  | @renames o newName hmsg ho hne hlen hroom hnames =>
    refine .rename (only_put a _ (fun d _ => hroom d) fun d hd => (hnames d).trans (if_neg hd))
      ho hidle' (hfree newName hmsg hne hlen) (hroom a) ((hnames a).trans (if_pos rfl)) ?_ ?_
    · refine view_congr rfl ?_
      rw [snapshotFor_put, filterMap_snapshotIn_announceName, hnosnap]
      rfl
    · rw [news_put, filterMap_newsIn_announceName (hb.name ho).1]
      rfl

end Put

section Advance

/-- The world after a task has taken the first step of what it had left. -/
abbrev World.after (env : Env) (w : World) (t : Task) (action : Action) (rest : List Action) :
    World :=
  (w.act env action).1.setPending t ((w.act env action).2 ++ rest)

/-- The list of a client after a step: what the step puts into its queue comes on top. -/
theorem shown_after (hopen : ∀ b, action ≠ .openQueue b) (hdrop : ∀ b, action ≠ .dropQueue b) :
    (w.after env t action rest).shown kinds c = (w.senders.lookup c).map fun q =>
      ((w.after env t action rest).snapshotFor c).getD
        (roster (kinds c) (q ++ (action.addressed w.state c).toList)) := by
  rw [World.shown, World.senders_setPending, World.lookup_senders_act hopen hdrop, Option.map_map]
  rfl

/-- A step brings no snapshot under way, and takes away only the one it sends. -/
theorem snapshotFor_after (ho : Orderly w) (h : w.pending t = action :: rest)
    (hroutes : RoutesPlain action) (hsnap : some c = t → snapshotIn action = none) :
    (w.after env t action rest).snapshotFor c = w.snapshotFor c := by
  rw [World.snapshotFor, World.after, ho.pending_advance env h, World.snapshotFor]
  split
  · rename_i hc
    rw [hc, h, List.filterMap_append, filterMap_snapshotIn_act hroutes, List.nil_append,
      List.filterMap_cons_none (hsnap hc)]
  · rfl

/-- A step whose messages change no list leaves the client's list as it is. -/
theorem view_after_of_plain (ho : Orderly w) (h : w.pending t = action :: rest)
    (hroutes : RoutesPlain action) (hsnap : some c = t → snapshotIn action = none)
    (hopen : ∀ b, action ≠ .openQueue b) (hdrop : ∀ b, action ≠ .dropQueue b)
    (hplain : ∀ msg, action.addressed w.state c = some msg → ∀ ps, (kinds c).handle ps msg = ps) :
    ((w.after env t action rest).presence kinds).view c = (w.presence kinds).view c := by
  refine congrArg (Option.map names) ?_
  rw [shown_after hopen hdrop, snapshotFor_after ho h hroutes hsnap, World.shown]
  refine congrArg (Option.map · _) (funext fun q => ?_)
  cases hadd : action.addressed w.state c with
  | none => rw [Option.toList_none, List.append_nil]
  | some msg => rw [Option.toList_some, roster_append, hplain msg hadd]

/-- A step that takes nobody out of the registry and has no news to tell is a quiet one, if
it leaves the lists of those in a channel alone. -/
theorem quiet_after (ho : Orderly w) (h : w.pending t = action :: rest)
    (hroutes : RoutesPlain action) (hrem : ∀ b, action ≠ .removeClient b)
    (hnews : newsIn action = none ∨ t = none)
    (hview : ∀ c r, w.state.channelOf c = some r →
      ((w.after env t action rest).presence kinds).view c = (w.presence kinds).view c ∨
        ((w.after env t action rest).presence kinds).view c = none) :
    (w.presence kinds).Step ((w.after env t action rest).presence kinds) := by
  have hstate : (w.after env t action rest).state = w.state := by
    rw [World.state_setPending, World.state_act hrem]
  have hnext : (w.act env action).2.filterMap newsIn = [] := by
    refine filterMap_newsIn_of_silent fun y hy => (mem_act_cases hroutes hy).resolve_right ?_
    rintro ⟨⟨b, hb⟩, -⟩
    exact hrem b hb
  refine .quiet ?_ ?_ (funext fun d => ?_) hview
  · exact congrArg ServerState.channelOf hstate
  · exact congrArg ServerState.nameOf hstate
  · show ((w.after env t action rest).pending (some d)).filterMap newsIn =
      (w.pending (some d)).filterMap newsIn
    rw [ho.pending_advance env h]
    split
    · rename_i hd
      subst hd
      rw [h, List.filterMap_append, hnext, List.nil_append,
        List.filterMap_cons_none (hnews.resolve_right (by simp))]
    · rfl

/-- Whoever is sent the news has it in the list afterwards. -/
theorem names_shown_after (ho : Orderly w) (h : w.pending (some a) = action :: rest)
    (htells : Tells a action x) (hsafe : RosterSafe kinds w (env, .advance (some a)))
    (hopen : ∀ b, action ≠ .openQueue b) (hdrop : ∀ b, action ≠ .dropQueue b)
    (hsnap : (w.after env (some a) action rest).snapshotFor c = w.snapshotFor c)
    (hadd : action.addressed w.state c = some (messageOf x)) :
    ((w.after env (some a) action rest).shown kinds c).map names =
      ((w.shown kinds c).map names).map x.edit := by
  have hshown : w.shown kinds c =
      (w.senders.lookup c).map fun q => (w.snapshotFor c).getD (roster (kinds c) q) := rfl
  rw [shown_after hopen hdrop, hsnap, hadd, hshown]
  cases hq : w.senders.lookup c with
  | none => rfl
  | some q =>
    have hrenames : ∀ o n, messageOf x = .nameChanged o n →
        Renames (kinds c) ((w.snapshotFor c).getD (roster (kinds c) q)) o n := by
      intro o n hmsg
      refine hsafe.renamesOnce (some a) action rest rfl h c o n _ (hmsg ▸ hadd) ?_
      rw [hshown, hq, Option.map_some]
    simp only [Option.map_some, Option.toList_some, Option.some.injEq]
    rw [← htells.names_handle hrenames]
    cases hs : w.snapshotFor c with
    | none => rw [Option.getD_none, Option.getD_none, roster_append]
    | some ps =>
      rw [Option.getD_some, Option.getD_some]
      refine (hsafe.inSnapshot (some a) action rest rfl h c _ ps hadd
        (Finmap.mem_of_lookup_eq_some hq) ?_).symm
      rw [← hs, ← hsnap, World.snapshotFor, World.snapshotFor, ho.pending_advance env h,
        World.pending_setPending (World.live_of_pending h), htells.act, List.nil_append]

/-- Telling news is telling it. -/
theorem tell_after (ho : Orderly w) (h : w.pending (some a) = action :: rest)
    (htells : Tells a action x) (hsafe : RosterSafe kinds w (env, .advance (some a))) :
    (w.presence kinds).Step ((w.after env (some a) action rest).presence kinds) := by
  have hopen : ∀ b, action ≠ .openQueue b := by rintro b rfl; cases htells
  have hdrop : ∀ b, action ≠ .dropQueue b := by rintro b rfl; cases htells
  have hrem : ∀ b, action ≠ .removeClient b := by rintro b rfl; cases htells
  have hroutes : RoutesPlain action := by rintro b toPubkey msg rfl; cases htells
  have hstate : (w.after env (some a) action rest).state = w.state := by
    rw [World.state_setPending, World.state_act hrem]
  have hpend := fun u => ho.pending_advance env (u := u) h
  refine .tell (congrArg ServerState.channelOf hstate) (congrArg ServerState.nameOf hstate)
    (a := a) (x := x) ?_ (fun d hd => ?_) fun c r hr => ?_
  · show (w.pending (some a)).filterMap newsIn =
      x :: ((w.after env (some a) action rest).pending (some a)).filterMap newsIn
    rw [hpend, if_pos rfl, h, htells.act, List.nil_append, List.filterMap_cons_some htells.newsIn]
  · show ((w.after env (some a) action rest).pending (some d)).filterMap newsIn =
      (w.pending (some d)).filterMap newsIn
    rw [hpend, if_neg (by simpa using hd)]
  · have hreaches : x.Reaches a c (some r) ↔ x.Reaches a c (w.state.channelOf c) := by
      rw [show w.state.channelOf c = some r from hr]
    obtain ⟨hyes, hno⟩ := htells.addressed (s := w.state) (c := c)
    have hsnap : (w.after env (some a) action rest).snapshotFor c = w.snapshotFor c :=
      snapshotFor_after ho h hroutes fun _ => htells.snapshotIn
    by_cases hreach : x.Reaches a c (w.state.channelOf c)
    · exact .inr ⟨names_shown_after ho h htells hsafe hopen hdrop hsnap (hyes hreach),
        hreaches.2 hreach⟩
    · refine .inl ⟨?_, fun hc => hreach (hreaches.1 hc)⟩
      refine view_after_of_plain ho h hroutes (fun _ => htells.snapshotIn) hopen hdrop ?_
      intro msg hadd
      rw [hno hreach] at hadd
      exact absurd hadd (by simp)

/-- Sending the snapshot puts in the client's hands what it was about to hold. -/
theorem view_after_show {ch : ChannelId} {participants : List String} {token : UInt64}
    {key : Bytes} (ho : Orderly w) (hv : Voiced w)
    (h : w.pending (some a) = .send a (.joinedChannel ch participants token key) :: rest) :
    ((w.after env (some a) (.send a (.joinedChannel ch participants token key)) rest).presence
      kinds).view a = (w.presence kinds).view a := by
  have hsnap : snapshotIn (.send a (.joinedChannel ch participants token key)) =
      some participants := rfl
  have honce := hv.once a
  rw [h, List.filterMap_cons_some hsnap, List.length_cons] at honce
  have hrest : rest.filterMap snapshotIn = [] := List.length_eq_zero_iff.1 (by omega)
  have hbefore : w.snapshotFor a = some participants := by
    rw [World.snapshotFor, h, List.filterMap_cons_some hsnap, List.head?_cons]
  have hafter : (w.after env (some a) (.send a (.joinedChannel ch participants token key))
      rest).snapshotFor a = none := by
    rw [World.snapshotFor, World.after, ho.pending_advance env h, if_pos rfl]
    simp only [World.act, List.nil_append, hrest, List.head?_nil]
  refine congrArg (Option.map names) ?_
  rw [shown_after (by simp) (by simp), hafter, World.shown, hbefore]
  refine congrArg (Option.map · _) (funext fun q => ?_)
  simp [Action.addressed, roster_append]

/-- Taking a client out of the registry takes it out of its room. -/
theorem remove_after (ho : Orderly w) (h : w.pending (some a) = .removeClient a :: rest) :
    (w.presence kinds).Step ((w.after env (some a) (.removeClient a) rest).presence kinds) := by
  obtain ⟨-, rfl⟩ := (ho.ends h).2.1 a rfl
  have hpend := fun u => ho.pending_advance env (u := u) h
  have hroutes : RoutesPlain (.removeClient a) := by rintro b toPubkey msg hb; cases hb
  have hroom : ∀ b, (w.after env (some a) (.removeClient a) [.close a]).state.channelOf b =
      if b = a then none else w.state.channelOf b := by
    intro b
    rw [World.state_setPending, channelOf_removeClient]
  have hname : ∀ b, (w.after env (some a) (.removeClient a) [.close a]).state.nameOf b =
      if b = a then none else w.state.nameOf b := by
    intro b
    rw [World.state_setPending, nameOf_act]
    simp only [Action.removeClient.injEq, eq_comm]
  have honly : Presence.Only a (w.presence kinds)
      ((w.after env (some a) (.removeClient a) [.close a]).presence kinds) := by
    refine ⟨fun d hd => (hroom d).trans (if_neg hd), fun d hd => (hname d).trans (if_neg hd),
      fun d hd => ?_, fun d hd => ?_⟩
    · refine congrArg (List.filterMap newsIn) ?_
      rw [hpend, if_neg (by simpa using hd)]
    · exact view_after_of_plain ho h hroutes (fun _ => rfl) (by simp) (by simp)
        (by simp [Action.addressed])
  have hidle : (w.presence kinds).news a = [] := by
    show (w.pending (some a)).filterMap newsIn = []
    rw [h]
    rfl
  have hnews : ((w.after env (some a) (.removeClient a) [.close a]).presence kinds).news a =
      (w.act env (.removeClient a)).2.filterMap newsIn := by
    show ((w.after env (some a) (.removeClient a) [.close a]).pending (some a)).filterMap newsIn = _
    rw [hpend, if_pos rfl, List.filterMap_append]
    simp [newsIn]
  have hgone := (hname a).trans (if_pos rfl)
  cases hl : w.state.clients.lookup a with
  | none =>
    have hn := (notMem_iff_lookup _ _).2 hl
    rw [World.act_removeClient_of_notMem hn] at hnews
    refine .call honly ?_ hidle ((hroom a).trans (if_pos rfl)) hnews fun n hn => ?_
    · show w.state.channelOf a = none
      rw [ServerState.channelOf, hl]
      rfl
    · exact absurd (hgone.symm.trans hn) (by simp)
  | some i =>
    rw [World.act_removeClient_of_lookup hl] at hnews
    cases hch : i.channel with
    | none =>
      rw [hch] at hnews
      refine .call honly ((channelOf_of_lookup hl).trans hch) hidle
        ((hroom a).trans (if_pos rfl)) hnews fun n hn => ?_
      exact absurd (hgone.symm.trans hn) (by simp)
    | some ch =>
      rw [hch] at hnews
      refine .depart honly ((channelOf_of_lookup hl).trans hch) (nameOf_of_lookup hl) hidle
        ((hroom a).trans (if_pos rfl)) (.inr hgone) (hnews.trans ?_)
      show List.filterMap newsIn (.broadcast ch none (.peerLeft i.name) :: pushIfPublic ch) = _
      rw [List.filterMap_cons, filterMap_newsIn_of_silent fun y => silent_of_mem_push]
      rfl

/-- A step that has nothing to say about rooms and names changes none of them. -/
theorem silent_after (ho : Orderly w) (h : w.pending t = action :: rest) (hs : Silent action)
    (hrem : ∀ b, action ≠ .removeClient b) (hdrop : ∀ b, action ≠ .dropQueue b) :
    (w.presence kinds).Step ((w.after env t action rest).presence kinds) := by
  refine quiet_after ho h hs.routesPlain hrem (.inl hs.newsIn) fun c r _ => .inl ?_
  refine view_after_of_plain ho h hs.routesPlain (fun _ => hs.snapshotIn) ?_ hdrop
    fun msg hadd ps => handle_plain (hs.plain hadd)
  rintro b rfl
  exact hs

/-- A client whose queue is gone has no list, and the others keep theirs. -/
theorem dropQueue_after (ho : Orderly w) (h : w.pending t = .dropQueue b :: rest)
    (hroutes : RoutesPlain (.dropQueue b)) :
    (w.presence kinds).Step ((w.after env t (.dropQueue b) rest).presence kinds) := by
  refine quiet_after ho h hroutes (by simp) (.inl rfl) fun c r hr => ?_
  by_cases hc : c = b
  · refine .inr ?_
    show Option.map names (Option.map _ _) = none
    rw [World.senders_setPending, World.act, lookup_erase_if, if_pos hc]
    rfl
  · refine .inl (view_congr ?_ (snapshotFor_after ho h hroutes fun _ => rfl))
    rw [World.senders_setPending, World.act, lookup_erase_if, if_neg hc]

/-- **A step of a handler is a step of the presence.** -/
theorem advance_step (ho : Orderly w) (hv : Voiced w) (h : w.pending t = action :: rest)
    (hsafe : RosterSafe kinds w (env, .advance t)) :
    (w.presence kinds).Step ((w.after env t action rest).presence kinds) := by
  have hends := ho.ends h
  cases t with
  | none =>
    have hs : Silent action := hv.sweep action (by
      show action ∈ w.pending none
      rw [h]
      exact List.mem_cons_self)
    refine silent_after ho h hs ?_ ?_
    · rintro b rfl
      exact absurd (hends.2.1 b rfl).1 (by simp)
    · rintro b rfl
      exact absurd (hends.1 b rfl).1 (by simp)
  | some a =>
    have hsays := hv.spoken a action (h ▸ List.mem_cons_self)
    have hroutes := hsays.routesPlain
    cases hsays with
    | tells htells => exact tell_after ho h htells hsafe
    | @greets n =>
      refine quiet_after ho h hroutes (by simp) (.inl rfl) fun c r _ => .inl ?_
      refine view_after_of_plain ho h hroutes (fun _ => rfl) (by simp) (by simp) ?_
      intro msg hadd ps
      rw [Action.addressed] at hadd
      split at hadd
      · rw [← Option.some.inj hadd, handle_nameChanged_empty]
      · exact absurd hadd (by simp)
    | @shows ch participants token key =>
      refine quiet_after ho h hroutes (by simp) (.inl rfl) fun c r _ => .inl ?_
      by_cases hc : c = a
      · rw [hc]
        exact view_after_show ho hv h
      · refine view_after_of_plain ho h hroutes (fun hca => absurd (Option.some.inj hca) hc)
          (by simp) (by simp) fun msg hadd => ?_
        rw [Action.addressed, if_neg hc] at hadd
        exact absurd hadd (by simp)
    | clears hout =>
      refine quiet_after ho h hroutes (by simp) (.inl rfl) fun c r hr => .inl ?_
      refine view_after_of_plain ho h hroutes (fun _ => rfl) (by simp) (by simp) fun msg hadd => ?_
      rw [Action.addressed, if_neg] at hadd
      · exact absurd hadd (by simp)
      · rintro rfl
        rw [hout] at hr
        exact absurd hr (by simp)
    | opens hout =>
      refine quiet_after ho h hroutes (by simp) (.inl rfl) fun c r hr => .inl ?_
      refine view_congr ?_ (snapshotFor_after ho h hroutes fun _ => rfl)
      rw [World.senders_setPending, World.act, lookup_insert_if, if_neg]
      rintro rfl
      rw [hout] at hr
      exact absurd hr (by simp)
    | silent hs =>
      by_cases hrem : ∃ b, action = .removeClient b
      · obtain ⟨b, rfl⟩ := hrem
        obtain rfl := Option.some.inj (hends.2.1 b rfl).1
        exact remove_after ho h
      by_cases hdrop : ∃ b, action = .dropQueue b
      · obtain ⟨b, rfl⟩ := hdrop
        exact dropQueue_after ho h hroutes
      · exact silent_after ho h hs (fun b hb => hrem ⟨b, hb⟩) fun b hb => hdrop ⟨b, hb⟩

end Advance

/-- A client is registered under its connection's name. -/
theorem Orderly.nameOf_of_lookup (ho : Orderly w) {conn : Connection} (ha : a ∈ w.state.clients)
    (hl : w.connections.lookup a = some conn) : w.state.nameOf a = some conn.name := by
  obtain ⟨i, hi⟩ := (mem_iff_lookup _ _).1 ha
  have hname := ho.named a i.name (Server.nameOf_of_lookup hi)
  rw [World.connName, hl] at hname
  rw [Server.nameOf_of_lookup hi]
  exact hname.symm

/-- **The server's steps are steps of the presence.** -/
theorem World.Move.presence (hm : World.Move env w ev w') (ho : Orderly w) (hv : Voiced w)
    (hb : Bounded w.state) (hsafe : RosterSafe kinds w (env, ev)) :
    (w.presence kinds).Step (w'.presence kinds) := by
  have hsame : ∀ {w' : World}, w'.state.channelOf = w.state.channelOf →
      w'.state.nameOf = w.state.nameOf →
      (∀ c, w'.pending (some c) = w.pending (some c)) →
      (∀ c, w'.shown kinds c = w.shown kinds c) →
        (w.presence kinds).Step (w'.presence kinds) := by
    intro w' hroom hname hpend hshown
    refine .quiet hroom hname (funext fun c => ?_) fun c r _ => .inl ?_
    · exact congrArg (List.filterMap newsIn) (hpend c)
    · exact congrArg (Option.map names) (hshown c)
  cases hm with
  | turnedAway => exact hsame rfl rfl (fun _ => rfl) fun _ => rfl
  | @accepted a ha hr =>
    have hout : a ∉ w.state.clients := fun h => ha (ho.mem_connections h)
    have hidle := World.pending_some_of_notMem ha
    have hroom : ∀ b, (w.state.registered a).channelOf b =
        if b = a then none else w.state.channelOf b :=
      fun b => channelOf_insert (c := ⟨w.state.nextName, none, none, none⟩) rfl
    refine .call (only_put a _ (fun d hd => (hroom d).trans (if_neg hd))
      fun d hd => nameOf_registered.trans (if_neg hd)) ?_ (news_of_idle hidle)
      ((hroom a).trans (if_pos rfl)) news_put fun n hn => ?_
    · show w.state.channelOf a = none
      rw [ServerState.channelOf, (notMem_iff_lookup _ _).1 hout]
      rfl
    · have hname : (w.state.registered a).nameOf a = some w.state.nextName :=
        nameOf_registered.trans (if_pos rfl)
      obtain rfl := Option.some.inj (hname.symm.trans hn)
      exact hsafe.accepted a _ rfl (by rw [hr])
  | @handled a cmsg conn s' name acts hl hidle h =>
    have hc := h.roomChange fun he => hsafe.noEcho a (he ▸ rfl)
    have hidle' : w.pending (some a) = [] := by rw [World.pending_some_of_lookup hl, hidle]
    exact hc.step hb hidle' (fun hin => ho.nameOf_of_lookup hin hl)
      fun n hmsg => hsafe.renamed a n (hmsg ▸ rfl)
  | @limited a ha hidle | @hungUp a ha hidle =>
    obtain ⟨conn, hl⟩ := (mem_iff_lookup _ _).1 ha
    rw [World.setPending_of_lookup hl]
    have hnothing : ∀ acts, (∀ y ∈ acts, Silent y) →
        RoomChange w.state a conn.name .ping w.state acts :=
      fun acts => .nothing (fun _ => rfl) fun _ => rfl
    refine (hnothing _ fun y hy => ?_).step hb hidle (fun hin => ?_)
      fun n hmsg => absurd hmsg (by simp)
    · simp only [List.mem_cons, List.not_mem_nil, or_false] at hy
      rcases hy with rfl | rfl | rfl <;> trivial
    · exact ho.nameOf_of_lookup hin hl
  | @advanced t action rest h => exact advance_step ho hv h hsafe
  | swept =>
    refine hsame (funext fun b => channelOf_cleanupWith) (funext fun b => ?_) (fun _ => rfl)
      fun _ => rfl
    exact nameOf_congr cleanupWith_clients
  | greeted =>
    exact hsame (funext fun b => channelOf_registerUdpByToken)
      (funext fun b => nameOf_registerUdpByToken) (fun _ => rfl) fun _ => rfl
  | shutDown =>
    have hnd : (env.addrOrder.toList w.senders.keys.val).Nodup :=
      env.addrOrder.nodup_toList.2 w.senders.keys.nodup
    have hpend : ∀ c, (w.enqueueAll (.error "server shutting down")
        (env.addrOrder.toList w.senders.keys.val)).pending (some c) = w.pending (some c) := by
      intro c
      rw [World.enqueueAll_eq]
      rfl
    refine hsame (by rw [World.enqueueAll_eq]) (by rw [World.enqueueAll_eq]) hpend fun c => ?_
    refine shown_of_plain (World.lookup_senders_enqueueAll hnd) (fun ps => ?_)
      (snapshotFor_of_pending (hpend c))
    split
    · exact handle_plain trivial
    · rfl

end Lemmas

/-! ## Runs -/

theorem voiced_listening {s : ServerState} (hs : s.clients = ∅) : Voiced (.listening s) where
  spoken a x hx := absurd hx List.not_mem_nil
  once a := Nat.zero_le 1
  sweep x hx := absurd hx List.not_mem_nil
  queued a ha := by
    rw [World.listening, hs] at ha
    exact absurd ha Finmap.notMem_empty

theorem converging_listening {s : ServerState} (hs : s.clients = ∅)
    (kinds : SocketAddr → ClientKind) :
    Presence.Converging (World.presence kinds (.listening s)) := by
  refine Presence.converging_of_empty (fun a => ?_) (fun a => ?_) fun a => rfl
  · show s.nameOf a = none
    rw [ServerState.nameOf, hs]
    rfl
  · show s.channelOf a = none
    rw [ServerState.channelOf, hs]
    rfl

/-- **When the rosters agree.**  Take any run of the server, its tasks interleaved in any
order, each of whose steps is safe for the rosters.  Whenever every handler has finished,
a client in a channel has a queue, and the list it ends up with is that of the names of
the clients in its channel. -/
theorem rosters_agree (kinds : SocketAddr → ClientKind) (limits : Limits) (s : ServerState)
    (hs : Started limits s) (es : List (Env × World.Event)) (w : World)
    (hok : EachStep World.step (RosterSafe kinds) (.listening s) es)
    (hrun : runFrom World.step (.listening s) es = some w) (hq : w.Quiescent)
    (c : SocketAddr) (ch : ChannelId) (hc : w.state.channelOf c = some ch) :
    ∃ queue, w.senders.lookup c = some queue ∧
      ∀ n, n ∈ roster (kinds c) queue ↔ n ∈ w.state.memberNames ch := by
  obtain ⟨-, hv, -, hconv⟩ : Orderly w ∧ Voiced w ∧ Bounded w.state ∧
      Presence.Converging (w.presence kinds) := by
    refine inv_runFrom (fun w => Orderly w ∧ Voiced w ∧ Bounded w.state ∧
      Presence.Converging (w.presence kinds)) ?_ ⟨orderly_listening hs.clients,
        voiced_listening hs.clients, hs.bounded, converging_listening hs.clients kinds⟩ hok hrun
    rintro w e w' ⟨ho, hv, hb, hconv⟩ hsafe h
    have hm := World.step_move h
    exact ⟨ho.move hm, hv.move ho hb hsafe.noEcho hm, hb.move ho hm,
      hconv.step (hm.presence ho hv hb hsafe)⟩
  have hin : c ∈ w.senders :=
    hv.mem_senders_of_idle (mem_clients_of_channelOf hc) (hq (some c))
  obtain ⟨queue, hl⟩ := (mem_iff_lookup _ _).1 hin
  have hview : (w.presence kinds).view c = some (names (roster (kinds c) queue)) := by
    show ((w.senders.lookup c).map _).map names = _
    rw [hl, snapshotFor_of_idle (hq (some c))]
    rfl
  have heq := hconv.view_eq (fun a => news_of_idle (hq (some a))) hc hview
  refine ⟨queue, hl, fun n => ?_⟩
  rw [mem_memberNames]
  exact Set.ext_iff.1 heq n

/-! ## Runs to look at -/

/-- A server with the persistent channel `pub-x`. -/
def lobby : ServerState :=
  (exec (.sample 7 1) (.new ⟨0, 0⟩) (.createPersistentChannel "x")).getD (.new ⟨0, 0⟩)

theorem started_lobby : Started ⟨0, 0⟩ lobby :=
  ⟨[(.sample 7 1, .createPersistentChannel "x")], fun _ _ => ⟨⟨_, rfl⟩, trivial⟩, rfl⟩

/-- Nobody else has the name or any news to tell. -/
def freshName (w : World) (a : SocketAddr) (n : String) : Bool :=
  !(w.state.clients.any fun b c => decide (b ≠ a ∧ c.name = n)) &&
    !(w.connections.any fun b conn => decide (b ≠ a ∧ conn.pending.filterMap newsIn ≠ []))

/-- No other task is in the middle of a handler, and the one that takes the step tells its own
client nothing before the snapshot. -/
def undisturbed (w : World) (t : Task) : Bool :=
  !(w.connections.any fun b conn => decide (some b ≠ t ∧ conn.pending ≠ [])) &&
    match t, w.pending t with
    | some a, action :: rest =>
      (action.addressed w.state a).isNone || (rest.filterMap snapshotIn).isEmpty
    | _, _ => true

/-- A step of clients that wait for each other. -/
def calm (w : World) : World.Event → Bool
  | .accept a => freshName w a w.state.nextName
  | .request _ .startEchoTest => false
  | .request a (.setName n) => freshName w a (trim n)
  | .advance t => undisturbed w t
  | _ => true

theorem free_of_freshName {w : World} {a : SocketAddr} {n : String}
    {kinds : SocketAddr → ClientKind} (h : freshName w a n = true) :
    (w.presence kinds).Free a n := by
  simp only [freshName, Bool.and_eq_true, Bool.not_eq_true', any_eq_false_iff,
    decide_eq_false_iff_not, not_and, not_not] at h
  rintro b hb (hn | ⟨x, hx, -⟩)
  · obtain ⟨c, hl, hc⟩ := Option.map_eq_some_iff.1 hn
    exact h.1 b c hl hb hc
  · have hx : x ∈ (w.pending (some b)).filterMap newsIn := hx
    rw [World.pending] at hx
    cases hl : w.connections.lookup b with
    | none => simp [hl] at hx
    | some conn =>
      simp only [hl] at hx
      rw [h.2 b conn hl hb] at hx
      exact absurd hx List.not_mem_nil

theorem rosterSafe_of_calm {w : World} {e : Env × World.Event} (h : calm w e.2 = true) :
    RosterSafe (fun _ => .desktop) w e := by
  obtain ⟨env, ev⟩ := e
  refine ⟨?_, ?_, ?_, ?_, ?_⟩
  · rintro a rfl
    exact absurd h (by simp [calm])
  · rintro a n rfl hn
    obtain ⟨-, hok⟩ | ⟨hok, -⟩ := registerClient_cases (s := w.state) (a := a) (Prod.mk.eta).symm
    · obtain ⟨err, he⟩ := hok
      rw [he] at hn
      exact absurd hn (by simp)
    · rw [hok] at hn
      rw [← Except.ok.inj hn]
      exact free_of_freshName h
  · rintro a n rfl - -
    exact free_of_freshName h
  · rintro t action rest rfl hp c msg ps hadd - hsnap
    simp only [calm, undisturbed, Bool.and_eq_true, Bool.not_eq_true', any_eq_false_iff,
      decide_eq_false_iff_not, not_and, not_not] at h
    obtain ⟨hidle, hown⟩ := h
    rw [World.snapshotFor, World.pending_setPending (World.live_of_pending hp)] at hsnap
    by_cases hc : some c = t
    · subst hc
      simp only [hp, Bool.or_eq_true, Option.isNone_iff_eq_none, List.isEmpty_iff] at hown
      rw [if_pos rfl, hown.resolve_left (by simp [hadd])] at hsnap
      exact absurd hsnap (by simp)
    · rw [if_neg hc, World.pending] at hsnap
      cases hl : w.connections.lookup c with
      | none => simp [hl] at hsnap
      | some conn =>
        simp [hl, hidle c conn hl hc] at hsnap
  · intro t action rest _ _ c o n ps _ _ hk
    exact absurd hk (by simp)

/-- Two clients connect, and the second joins `pub-x`. -/
def oneInside : List (Env × World.Event) :=
  sampled 1 (connecting (.v4 1 1) ++ connecting (.v4 2 2) ++
    .request (.v4 2 2) (.joinChannel "pub-x") :: advancing (.v4 2 2) 6)

/-- Then the first joins too, and the second takes another name. -/
def renamedRun : List (Env × World.Event) :=
  oneInside ++ sampled 2 (.request (.v4 1 1) (.joinChannel "pub-x") :: advancing (.v4 1 1) 6 ++
    .request (.v4 2 2) (.setName " bo ") :: advancing (.v4 2 2) 2)

theorem rosters_agree_renamedRun : ∃ w : World, w.Quiescent ∧
    ∃ queue, w.senders.lookup (.v4 1 1) = some queue ∧
      ∀ n, n ∈ roster .desktop queue ↔ n ∈ w.state.memberNames "pub-x" := by
  have hok : EachStep World.step (fun w e => calm w e.2 = true) (.listening lobby) renamedRun := by
    decide
  refine ⟨_, ?_, rosters_agree (fun _ => .desktop) ⟨0, 0⟩ lobby started_lobby renamedRun _
    (hok.mono fun _ _ => rosterSafe_of_calm) rfl ?_ (.v4 1 1) "pub-x" rfl⟩ <;> decide

/-- Then the first is joining, and the second leaves before the first is sent its list. -/
def departedRun : List (Env × World.Event) :=
  oneInside ++ sampled 2 (.request (.v4 1 1) (.joinChannel "pub-x") ::
    .request (.v4 2 2) .leaveChannel :: advancing (.v4 2 2) 6 ++ advancing (.v4 1 1) 6)

/-- With every handler finished, the first client still lists the one that left. -/
theorem departed_peer_shown :
    ∃ w, runFrom World.step (.listening lobby) departedRun = some w ∧ w.Quiescent ∧
      w.state.channelOf (.v4 1 1) = some "pub-x" ∧
      ∃ queue, w.senders.lookup (.v4 1 1) = some queue ∧
        (∀ kind, "user-2" ∈ roster kind queue) ∧ "user-2" ∉ w.state.memberNames "pub-x" :=
  ⟨_, rfl, by decide, rfl, _, rfl, fun kind => by cases kind <;> decide, by decide⟩

end Server
end TcVoice
