import VisualNovel.Proofs.Save.Files

/-!
A store in a file beside a store in memory. A store in memory that starts with the texts of the file
and takes over each write that succeeded gives the same answers, as long as the reader does not give
up and no failed write leads the path to another file.
-/
namespace VisualNovel.Save

open Data
open Text (RawText)

/-- Calls to stores on one path, which are opened anew for each call. -/
inductive Call where
  | get (key : RawText) (room : Nat)
  /-- `token` makes the name of the temporary file a new one. -/
  | set (key value : RawText) (room : Nat) (token : String) (trouble : Option FileStore.Trouble)

def Call.room : Call → Nat
  | get _ room => room
  | set _ _ room _ _ => room

/-- Whether nothing from outside stops a call. -/
def Call.Calm : Call → Prop
  | get _ _ => True
  | set _ _ _ _ trouble => trouble = none

inductive Reply where
  | value (found : Option RawText)
  | stored
  | failed (failure : Failure)

namespace FileStore

def answer (f : FileStore) : Call → Reply × FileStore
  | .get key room =>
      match KeyValueStore.get f room key with
      | .ok found => (.value found, f)
      | .error failure => (.failed failure, f)
  | .set key value room token trouble =>
      match f.put room key value token trouble with
      | (none, after) => (.stored, after)
      | (some failure, after) => (.failed failure, after)

/-- The replies to calls in their order. Each call is made to a store of its own; only the tree goes
from one to the next. -/
def replies (path : Disk.Path) : Disk.Tree → List Call → List Reply
  | _, [] => []
  | tree, call :: rest =>
      let (reply, after) := answer { tree, path } call
      reply :: replies path after.tree rest

/-- Some text has no bytes. -/
def Unencodable (d : Texts) : Prop :=
  ∃ key value, d.get? key = some value ∧
    ((Json.quote key).surrogates?.isSome ∨ (Json.quote value).surrogates?.isSome)

/-- The replies are those of a store in memory to which only the values are written that were
stored. The others could not be written to the path, or the texts have no bytes. -/
inductive Mirrors (path : Disk.Path) : MemoryStore → List Call → List Reply → Prop
  | done {m : MemoryStore} : Mirrors path m [] []
  | get {m : MemoryStore} {calls : List Call} {replies : List Reply} (key : RawText) (room : Nat)
      (hrest : Mirrors path m calls replies) :
      Mirrors path m (.get key room :: calls) (.value (m.get? key) :: replies)
  | stored {m : MemoryStore} {calls : List Call} {replies : List Reply} (key value : RawText)
      (room : Nat) (token : String) (trouble : Option Trouble)
      (hrest : Mirrors path (m.insert key value) calls replies) :
      Mirrors path m (.set key value room token trouble :: calls) (.stored :: replies)
  | failed {m : MemoryStore} {calls : List Call} {replies : List Reply} (key value : RawText)
      (room : Nat) (token : String) (trouble : Option Trouble) {failure : Failure}
      (hfailure : (∃ reason, failure = .fault (.unwritableSaves path.text reason)) ∨
        (∃ u, failure = .unencodable u) ∧ Unencodable (m.insert key value))
      (hrest : Mirrors path m calls replies) :
      Mirrors path m (.set key value room token trouble :: calls) (.failed failure :: replies)

/-- A store in memory with the texts of the file, as they are read with room enough. -/
def Loads (tree : Disk.Tree) (path : Disk.Path) (m : MemoryStore) : Prop :=
  ∀ key value, m.get? key = some value ↔ ∃ room, Holds tree path room key value

section Replies
variable {f after : FileStore} {path : Disk.Path} {tree : Disk.Tree} {m : MemoryStore} {d : Texts}
  {room : Nat} {token : String} {call : Call} {calls : List Call}

theorem holds_more {key value : RawText} {more : Nat} (hle : room ≤ more)
    (h : Holds tree path room key value) : Holds tree path more key value := by
  obtain ⟨bytes, text, fields, hread, htext, hdocument, hfind⟩ := h
  exact ⟨bytes, text, fields, hread, htext, Json.read?_more hle hdocument, hfind⟩

theorem exists_holds_iff (h : f.contents room = .ok d) (key value : RawText) :
    (∃ room, Holds f.tree f.path room key value) ↔ d.get? key = some value := by
  constructor
  · rintro ⟨other, hholds⟩
    rcases Nat.le_total other room with hle | hle
    · exact (get?_contents_iff h key value).mpr (holds_more hle hholds)
    · exact (get?_contents_iff (contents_more hle h) key value).mpr hholds
  · exact fun hget => ⟨room, (get?_contents_iff h key value).mp hget⟩

theorem exists_loads (tree : Disk.Tree) (path : Disk.Path) : ∃ m, Loads tree path m := by
  by_cases h : ∃ room d, (FileStore.mk tree path).contents room = .ok d
  · obtain ⟨room, d, hd⟩ := h
    exact ⟨d, fun key value => (exists_holds_iff hd key value).symm⟩
  · refine ⟨∅, fun key value => iff_of_false nofun ?_⟩
    rintro ⟨room, bytes, text, fields, hread, htext, hdocument, -⟩
    exact h ⟨room, _, contents_of_text (text?_eq_some_iff.mpr ⟨bytes, hread, htext⟩) hdocument⟩

/-- The file is read in every call, and holds the texts of a store in memory. -/
def Agrees (f : FileStore) (m : MemoryStore) (calls : List Call) : Prop :=
  ∀ call ∈ calls, 1 ≤ call.room ∧ ∃ d, f.contents call.room = .ok d ∧ ∀ key, m.get? key = d.get? key

theorem agrees_of_loads (hm : Loads tree path m)
    (h : ∀ call ∈ calls, 1 ≤ call.room ∧
      ∃ d, (FileStore.mk tree path).contents call.room = .ok d) :
    Agrees ⟨tree, path⟩ m calls := by
  intro call hcall
  obtain ⟨hroom, d, hd⟩ := h call hcall
  exact ⟨hroom, d, hd, fun key => Option.ext fun value =>
    (hm key value).trans (exists_holds_iff hd key value)⟩

theorem Straight.mono {tree' : Disk.Tree} (h : Straight ⟨tree, path⟩)
    (hkeeps : tree.KeepsDirectories tree') : Straight ⟨tree', path⟩ := h.imp_right hkeeps.lookup

theorem reopened (h : after.path = path) : FileStore.mk after.tree path = after := by
  obtain ⟨tree, _⟩ := after
  obtain rfl := h
  rfl

theorem unencodable_of_unencodable? {u : Text.Unencodable} (h : unencodable? d = some u) :
    Unencodable d := by
  obtain ⟨t, ht, hu⟩ := List.exists_of_findSome?_eq_some h
  obtain ⟨⟨key, value⟩, hentry, hmem⟩ := List.mem_flatMap.mp ht
  refine ⟨key, value, (KeyedList.mem_entries_iff d key value).mp hentry, ?_⟩
  simp only [List.mem_cons, List.not_mem_nil, or_false] at hmem
  exact hmem.imp (fun h => by simp [← h, hu]) fun h => by simp [← h, hu]

theorem Unencodable.congr (h : Unencodable d) (hsame : ∀ key, m.get? key = d.get? key) :
    Unencodable m := by
  obtain ⟨key, value, hget, hsurrogates⟩ := h
  exact ⟨key, value, (hsame key).trans hget, hsurrogates⟩

section Outcomes
variable {trouble : Option Trouble} {failure : Option Failure}

theorem Outcome.path_eq (h : Outcome f d token trouble failure after) : after.path = f.path := by
  cases h with
  | stored hstored => exact hstored.path
  | blocked _ hleft => exact hleft.path
  | unencodable hleft => exact hleft.path
  | stopped _ _ hleft => exact hleft.path

theorem Outcome.sound (h : Outcome f d token trouble failure after) (hf : f.tree.Sound) :
    after.tree.Sound := by
  cases h with
  | stored hstored => exact hstored.sound hf
  | blocked _ hleft => exact hleft.sound hf
  | unencodable hleft => exact hleft.sound hf
  | stopped _ _ hleft => exact hleft.sound hf

theorem Outcome.keepsDirectories (h : Outcome f d token trouble failure after) :
    f.tree.KeepsDirectories after.tree := by
  cases h with
  | stored hstored => exact hstored.keeps
  | blocked _ hleft => exact hleft.kept.keepsDirectories
  | unencodable hleft => exact hleft.kept.keepsDirectories
  | stopped _ _ hleft => exact hleft.kept.keepsDirectories

/-- A failed write can only change what is read by a directory that it leaves on the way up. -/
theorem Outcome.contents {failure : Failure} (h : Outcome f d token trouble (some failure) after)
    (hf : f.tree.Sound)
    (hsafe : f.Straight ∨ trouble = none ∧ ∀ u, failure ≠ .unencodable u) (room : Nat) :
    after.contents room = f.contents room := by
  cases h with
  | blocked reason hleft hblocked =>
    exact contents_congr (fun bytes => iff_of_false (hblocked.read_ne bytes) fun hread =>
      hblocked.read_ne bytes (hleft.read hread)) room
  | unencodable hleft =>
    exact hleft.contents hf (hsafe.resolve_right fun h => h.2 _ rfl) room
  | stopped trouble reason hleft =>
    exact hleft.contents hf (hsafe.resolve_right fun h => nomatch h.1) room

theorem Outcome.message {failure : Failure} (h : Outcome f d token trouble (some failure) after) :
    (∃ reason, failure = .fault (.unwritableSaves f.path.text reason)) ∨
      (∃ u, failure = .unencodable u) ∧ Unencodable d := by
  cases h with
  | blocked reason => exact .inl ⟨reason, rfl⟩
  | unencodable hleft hu => exact .inr ⟨⟨_, rfl⟩, unencodable_of_unencodable? hu⟩
  | stopped trouble reason => exact .inl ⟨reason, rfl⟩

section Calm
variable {failure : Failure} (h : Outcome f d token none (some failure) after)
include h

theorem Outcome.keepsPlace (hplace : f.HasPlace) :
    after.HasPlace ∧ ∀ fault, failure ≠ .fault fault := by
  cases h with
  | blocked reason hleft hblocked hfull => exact absurd hplace hfull
  | unencodable hleft hu hkeeps => exact ⟨hkeeps hplace, nofun⟩

theorem Outcome.keepsBlocked (hblocked : f.Blocked) : after.Blocked := by
  cases h with
  | blocked reason hleft hstays => exact hstays
  | unencodable hleft => exact hblocked.mono hleft.kept hleft.path

theorem Outcome.blocked_of_fault {fault : Fault} (hfault : failure = .fault fault) :
    after.Blocked := by
  cases h with
  | blocked reason hleft hblocked => exact hblocked
  | unencodable => cases hfault

end Calm

end Outcomes

/-- How a call is answered once the file is read. -/
inductive Answered (f : FileStore) (d : Texts) : Call → Reply → FileStore → Prop
  | got (key : RawText) (room : Nat) : Answered f d (.get key room) (.value (d.get? key)) f
  | wrote {key value : RawText} {token : String} {trouble : Option Trouble}
      {failure : Option Failure} {after : FileStore} (room : Nat)
      (houtcome : Outcome f (d.insert key value) token trouble failure after) :
      Answered f d (.set key value room token trouble) (failure.elim .stored .failed) after

theorem answered (hf : f.tree.Sound) (hd : f.contents call.room = .ok d) :
    Answered f d call (f.answer call).1 (f.answer call).2 := by
  cases call with
  | get key room =>
    have hget : KeyValueStore.get f room key = .ok (d.get? key) := by
      change ((f.contents room).mapError Failure.unreadable).map (fun d => d.get? key) = _
      rw [show f.contents room = .ok d from hd]
      rfl
    simp only [answer, hget]
    exact .got key room
  | set key value room token trouble =>
    have hput : f.put room key value token trouble =
        f.replace (d.insert key value) token trouble := by
      rw [put, show f.contents room = .ok d from hd]
    have houtcome := outcome_replace hf.grounded (d.insert key value) token trouble
    cases hreplace : f.replace (d.insert key value) token trouble with
    | mk failure after =>
      rw [hreplace] at houtcome
      have hanswered := Answered.wrote room houtcome
      simp only [answer, hput, hreplace]
      cases failure <;> exact hanswered

/-- Where the reader gives up, a call fails and changes nothing. -/
theorem answer_of_limit {limit : Json.ReadLimit} (h : f.contents call.room = .error limit) :
    f.answer call = (.failed (.unreadable limit), f) := by
  cases call with
  | get key room =>
    have hget : KeyValueStore.get f room key = .error (.unreadable limit) := by
      change ((f.contents room).mapError Failure.unreadable).map (fun d => d.get? key) = _
      rw [show f.contents room = .error limit from h]
      rfl
    simp only [answer, hget]
  | set key value room token trouble =>
    simp only [answer, put, show f.contents room = .error limit from h]

theorem Answered.sound {reply : Reply} (h : Answered f d call reply after) (hf : f.tree.Sound) :
    after.tree.Sound := by
  cases h with
  | got => exact hf
  | wrote room houtcome => exact houtcome.sound hf

theorem Answered.keepsDirectories {reply : Reply} (h : Answered f d call reply after) :
    f.tree.KeepsDirectories after.tree := by
  cases h with
  | got => exact (Disk.Tree.Extends.refl f.tree).keepsDirectories
  | wrote room houtcome => exact houtcome.keepsDirectories

theorem exists_replies_cons (path : Disk.Path) (htree : tree.Sound) (rest : List Call)
    (hd : (FileStore.mk tree path).contents call.room = .ok d) :
    ∃ reply after, Answered ⟨tree, path⟩ d call reply after ∧
      replies path tree (call :: rest) = reply :: replies path after.tree rest :=
  ⟨_, _, answered (f := ⟨tree, path⟩) htree hd, rfl⟩

/-- Texts that were stored are read in every later call. -/
theorem Stored.agrees (h : Stored f d after) (hm : ∀ key, m.get? key = d.get? key)
    (hrooms : ∀ call ∈ calls, 1 ≤ call.room) : Agrees after m calls := by
  intro call hcall
  obtain ⟨room, hroom⟩ := Nat.exists_eq_add_of_le' (hrooms call hcall)
  exact ⟨hrooms call hcall, d, hroom ▸ contents_of_read h.read h.encodable room, hm⟩

/-- Nothing that a failed write leaves leads to another file: the path does not go up through it, or
no write fails halfway. -/
def Safe (path : Disk.Path) (tree : Disk.Tree) (calls : List Call) : Prop :=
  Straight ⟨tree, path⟩ ∨ (∀ call ∈ calls, call.Calm) ∧
    ∀ u, .failed (.unencodable u) ∉ replies path tree calls

/-- What one call comes to: its reply, and the tree and the store for the calls to come. -/
structure Step (path : Disk.Path) (tree : Disk.Tree) (m : MemoryStore) (call : Call)
    (rest : List Call) (reply : Reply) (tree' : Disk.Tree) (m' : MemoryStore) : Prop where
  replies : replies path tree (call :: rest) = reply :: replies path tree' rest
  sound : tree'.Sound
  agrees : Agrees ⟨tree', path⟩ m' rest
  safe : Safe path tree' rest
  mirrors {later : List Reply} :
    Mirrors path m' rest later → Mirrors path m (call :: rest) (reply :: later)
  keepsPlace : call.Calm → HasPlace ⟨tree, path⟩ →
    HasPlace ⟨tree', path⟩ ∧ ∀ fault, reply ≠ .failed (.fault fault)
  keepsBlocked : call.Calm → Blocked ⟨tree, path⟩ → Blocked ⟨tree', path⟩ ∧ reply ≠ .stored
  stored : reply = .stored → HasPlace ⟨tree', path⟩
  refused : call.Calm → ∀ fault, reply = .failed (.fault fault) → Blocked ⟨tree', path⟩

theorem Safe.tail {reply : Reply} {tree' : Disk.Tree} {rest : List Call}
    (h : Safe path tree (call :: rest))
    (hreplies : replies path tree (call :: rest) = reply :: replies path tree' rest)
    (hkeeps : tree.KeepsDirectories tree') : Safe path tree' rest := by
  refine h.imp (·.mono hkeeps) fun ⟨hcalm, hbytes⟩ =>
    ⟨fun c hc => hcalm c (List.mem_cons_of_mem call hc), fun u hu => hbytes u ?_⟩
  rw [hreplies]
  exact List.mem_cons_of_mem reply hu

theorem step_of_stored {key value : RawText} {trouble : Option Trouble} {rest : List Call}
    (htree : tree.Sound) (hstored : Stored ⟨tree, path⟩ (d.insert key value) after)
    (hsame : ∀ key, m.get? key = d.get? key) (hrooms : ∀ c ∈ rest, 1 ≤ c.room)
    (hsafe : Safe path tree (.set key value room token trouble :: rest))
    (hreplies : replies path tree (.set key value room token trouble :: rest) =
      .stored :: replies path after.tree rest) :
    Step path tree m (.set key value room token trouble) rest .stored after.tree
      (m.insert key value) := by
  have hpath : FileStore.mk after.tree path = after := reopened hstored.path
  have hplace : HasPlace ⟨after.tree, path⟩ := by
    rw [hpath]
    exact hasPlace_of_read hstored.read
  refine
    { replies := hreplies
      sound := hstored.sound htree
      agrees := ?_
      safe := hsafe.tail hreplies hstored.keeps
      mirrors := .stored key value room token trouble
      keepsPlace := fun _ _ => ⟨hplace, nofun⟩
      keepsBlocked := fun _ hblocked => absurd hblocked hstored.free
      stored := fun _ => hplace
      refused := fun _ _ => nofun }
  rw [hpath]
  refine hstored.agrees (fun other => ?_) hrooms
  rw [KeyedList.get?_insert, KeyedList.get?_insert, hsame]

theorem step_of_failed {key value : RawText} {trouble : Option Trouble} {failure : Failure}
    {rest : List Call} (htree : tree.Sound)
    (houtcome : Outcome ⟨tree, path⟩ (d.insert key value) token trouble (some failure) after)
    (hsame : ∀ key, m.get? key = d.get? key) (hrest : Agrees ⟨tree, path⟩ m rest)
    (hsafe : Safe path tree (.set key value room token trouble :: rest))
    (hreplies : replies path tree (.set key value room token trouble :: rest) =
      .failed failure :: replies path after.tree rest) :
    Step path tree m (.set key value room token trouble) rest (.failed failure) after.tree m := by
  have hpath : FileStore.mk after.tree path = after := reopened houtcome.path_eq
  have hinsert : ∀ k, (m.insert key value).get? k = (d.insert key value).get? k := fun k => by
    rw [KeyedList.get?_insert, KeyedList.get?_insert, hsame]
  have hcontents : ∀ room, after.contents room = (FileStore.mk tree path).contents room := by
    refine houtcome.contents htree (hsafe.imp_right fun ⟨hcalm, hbytes⟩ =>
      ⟨hcalm _ List.mem_cons_self, ?_⟩)
    rintro u rfl
    refine hbytes u ?_
    rw [hreplies]
    exact List.mem_cons_self
  refine
    { replies := hreplies
      sound := houtcome.sound htree
      agrees := ?_
      safe := hsafe.tail hreplies houtcome.keepsDirectories
      mirrors := .failed key value room token trouble
        (houtcome.message.imp_right (And.imp_right (·.congr hinsert)))
      keepsPlace := ?_
      keepsBlocked := ?_
      stored := nofun
      refused := ?_ }
  · rw [hpath]
    intro c hc
    obtain ⟨hroom, d, hd, hsame⟩ := hrest c hc
    exact ⟨hroom, d, (hcontents c.room).trans hd, hsame⟩
  · rintro rfl hplace
    obtain ⟨hafter, hfailure⟩ := houtcome.keepsPlace hplace
    exact ⟨hpath ▸ hafter, fun fault hfault => hfailure fault (Reply.failed.inj hfault)⟩
  · rintro rfl hblocked
    exact ⟨hpath ▸ houtcome.keepsBlocked hblocked, nofun⟩
  · rintro rfl fault hfault
    exact hpath ▸ houtcome.blocked_of_fault (Reply.failed.inj hfault)

theorem exists_step {rest : List Call} (htree : tree.Sound)
    (hm : Agrees ⟨tree, path⟩ m (call :: rest)) (hsafe : Safe path tree (call :: rest)) :
    ∃ reply tree' m', Step path tree m call rest reply tree' m' := by
  obtain ⟨-, d, hd, hsame⟩ := hm call List.mem_cons_self
  have hrest : Agrees ⟨tree, path⟩ m rest := fun c hc => hm c (List.mem_cons_of_mem call hc)
  obtain ⟨reply, after, hanswer, hreplies⟩ := exists_replies_cons path htree rest hd
  cases hanswer with
  | got key room =>
    refine ⟨_, tree, m, hreplies, htree, hrest,
      hsafe.tail hreplies (Disk.Tree.Extends.refl tree).keepsDirectories, fun hlater => ?_,
      fun _ hplace => ⟨hplace, nofun⟩, fun _ hblocked => ⟨hblocked, nofun⟩, nofun, fun _ _ => nofun⟩
    rw [← hsame]
    exact .get key room hlater
  | @wrote key value token trouble failure after room houtcome =>
    cases failure with
    | some failure => exact ⟨_, _, _, step_of_failed htree houtcome hsame hrest hsafe hreplies⟩
    | none =>
      cases houtcome with
      | stored hstored =>
        have hreads := fun c hc => (hrest c hc).1
        exact ⟨_, _, _, step_of_stored htree hstored hsame hreads hsafe hreplies⟩

theorem mirrors_replies (htree : tree.Sound) (hm : Agrees ⟨tree, path⟩ m calls)
    (hsafe : Safe path tree calls) : Mirrors path m calls (replies path tree calls) := by
  induction calls generalizing tree m with
  | nil => exact .done
  | cons call rest ih =>
    obtain ⟨reply, tree', m', hstep⟩ := exists_step htree hm hsafe
    rw [hstep.replies]
    exact hstep.mirrors (ih hstep.sound hstep.agrees hstep.safe)

/-- Where there is a place for the file at first, no write is refused because of the path. -/
theorem not_refused (htree : tree.Sound) (hm : Agrees ⟨tree, path⟩ m calls)
    (hsafe : Safe path tree calls) (hcalm : ∀ call ∈ calls, call.Calm)
    (hplace : HasPlace ⟨tree, path⟩) (fault : Fault) :
    .failed (.fault fault) ∉ replies path tree calls := by
  induction calls generalizing tree m with
  | nil => simp [replies]
  | cons call rest ih =>
    obtain ⟨reply, tree', m', hstep⟩ := exists_step htree hm hsafe
    obtain ⟨hafter, hreply⟩ := hstep.keepsPlace (hcalm call List.mem_cons_self) hplace
    have hrest := ih hstep.sound hstep.agrees hstep.safe
      (fun c hc => hcalm c (List.mem_cons_of_mem call hc)) hafter
    rw [hstep.replies]
    simp [Ne.symm (hreply fault), hrest]

/-- Where the path is blocked at first, no write goes through. -/
theorem not_stored (htree : tree.Sound) (hm : Agrees ⟨tree, path⟩ m calls)
    (hsafe : Safe path tree calls) (hcalm : ∀ call ∈ calls, call.Calm)
    (hblocked : Blocked ⟨tree, path⟩) : .stored ∉ replies path tree calls := by
  induction calls generalizing tree m with
  | nil => simp [replies]
  | cons call rest ih =>
    obtain ⟨reply, tree', m', hstep⟩ := exists_step htree hm hsafe
    obtain ⟨hafter, hreply⟩ := hstep.keepsBlocked (hcalm call List.mem_cons_self) hblocked
    have hrest := ih hstep.sound hstep.agrees hstep.safe
      (fun c hc => hcalm c (List.mem_cons_of_mem call hc)) hafter
    rw [hstep.replies]
    simp [Ne.symm hreply, hrest]

/-- The first write that the path lets through or refuses decides for all. -/
theorem none_refused_or_none_stored (htree : tree.Sound) (hm : Agrees ⟨tree, path⟩ m calls)
    (hsafe : Safe path tree calls) (hcalm : ∀ call ∈ calls, call.Calm) :
    (∀ fault, .failed (.fault fault) ∉ replies path tree calls) ∨
      .stored ∉ replies path tree calls := by
  induction calls generalizing tree m with
  | nil => simp [replies]
  | cons call rest ih =>
    obtain ⟨reply, tree', m', hstep⟩ := exists_step htree hm hsafe
    have hlater : ∀ c ∈ rest, c.Calm := fun c hc => hcalm c (List.mem_cons_of_mem call hc)
    have hrest := ih hstep.sound hstep.agrees hstep.safe hlater
    rw [hstep.replies]
    cases reply with
    | value found => simpa using hrest
    | stored =>
      have hnone := not_refused hstep.sound hstep.agrees hstep.safe hlater (hstep.stored rfl)
      exact .inl (by simpa using hnone)
    | failed failure =>
      cases failure with
      | fault fault =>
        have hblocked := hstep.refused (hcalm call List.mem_cons_self) fault rfl
        have hnone := not_stored hstep.sound hstep.agrees hstep.safe hlater hblocked
        exact .inr (by simpa using hnone)
      | _ => simpa using hrest

end Replies

/-- A store in a file gives the answers of a store in memory that starts with the texts of the file
and takes over the values that were stored; a write that fails, for whatever reason, changes no
answer. This holds as long as the file is read at all, and a path that goes up does not come to
another file by what a failed write has left. Where nothing from outside stops a write, the path
lets all of them through or none, and all if there is a place for the file. Where the reader gives
up on the file, calls fail and change nothing. -/
theorem file_store_mirrors_memory_store {tree : Disk.Tree} (htree : tree.Sound)
    (path : Disk.Path) :
    (∃ m, Loads tree path m) ∧
      (∀ m, Loads tree path m → ∀ calls : List Call,
        (∀ call ∈ calls, 1 ≤ call.room ∧
          ∃ d, (FileStore.mk tree path).contents call.room = .ok d) →
        Safe path tree calls →
          Mirrors path m calls (replies path tree calls) ∧
          ((∀ call ∈ calls, call.Calm) →
            ((∀ fault, .failed (.fault fault) ∉ replies path tree calls) ∨
              .stored ∉ replies path tree calls) ∧
            (HasPlace ⟨tree, path⟩ → ∀ fault, .failed (.fault fault) ∉ replies path tree calls))) ∧
      ∀ (call : Call) (limit : Json.ReadLimit),
        (FileStore.mk tree path).contents call.room = .error limit →
          answer ⟨tree, path⟩ call = (.failed (.unreadable limit), ⟨tree, path⟩) := by
  refine ⟨exists_loads tree path, fun m hm calls hlegible hsafe => ?_, fun call limit =>
    answer_of_limit⟩
  have hagrees := agrees_of_loads hm hlegible
  exact ⟨mirrors_replies htree hagrees hsafe, fun hcalm =>
    ⟨none_refused_or_none_stored htree hagrees hsafe hcalm, fun hplace =>
      not_refused htree hagrees hsafe hcalm hplace⟩⟩

def oneFile (bytes : ByteArray) : Disk.Tree :=
  Disk.Tree.withFile {} ⟨true, ["saves.json"]⟩ bytes

def filePath : Disk.Path := ⟨false, ["saves.json"]⟩

theorem sound_oneFile (bytes : ByteArray) : (oneFile bytes).Sound :=
  ⟨rfl, (Disk.Tree.wellFormed_of_empty _).withFile _ _⟩

theorem read_oneFile (bytes : ByteArray) : (oneFile bytes).read filePath = .ok bytes := rfl

/-- The file holds a list of one number. -/
def numberTree (n : Int) : Disk.Tree :=
  oneFile (String.ofList (Json.numberText n).characters).toUTF8

theorem contents_numberText {n : Int} (hlong : Json.isTooLong n = true) (room : Nat) :
    ∃ limit, (FileStore.mk (numberTree n) filePath).contents (room + 1) = .error limit := by
  obtain ⟨hdecode, hsame⟩ := (Json.clean_numberText n).decodeLines
  have htext : (FileStore.mk (numberTree n) filePath).text? =
      some (String.ofList (Json.numberText n).characters) :=
    text?_eq_some_iff.mpr ⟨_, read_oneFile _, hdecode⟩
  refine ⟨.digits (toString n.natAbs).length, ?_⟩
  rw [contents, htext]
  simp only [bind, Except.bind, hsame, Json.read?_numberText hlong]

/-- A text among values of other kinds. -/
def mixedTree : Disk.Tree :=
  oneFile "\x7b\"k\": 1, \"s\": \"ok\", \"t\": [\"x\"]\x7d".toUTF8

theorem contents_mixedTree :
    ∃ d, (FileStore.mk mixedTree filePath).contents 900 = .ok d ∧
      d.entries = [(("s" : RawText), ("ok" : RawText))] := by
  have hentries : ((FileStore.mk mixedTree filePath).contents 900).toOption.map (·.entries) =
      some [(("s" : RawText), ("ok" : RawText))] := by decide +kernel
  cases hd : (FileStore.mk mixedTree filePath).contents 900 with
  | ok d =>
    rw [hd] at hentries
    exact ⟨d, rfl, Option.some.inj hentries⟩
  | error limit =>
    rw [hd] at hentries
    cases hentries

theorem file_store_mirrors_memory_store_over_a_mixed_file :
    let calls : List Call := [.set "a" "b" 900 "t" none, .get "a" 900, .get "s" 900]
    mixedTree.Sound ∧ Safe filePath mixedTree calls ∧ HasPlace ⟨mixedTree, filePath⟩ ∧
      ∃ m : MemoryStore, m.entries = [(("s" : RawText), ("ok" : RawText))] ∧
        Loads mixedTree filePath m ∧
        Mirrors filePath m calls (replies filePath mixedTree calls) ∧
        ∀ fault, .failed (.fault fault) ∉ replies filePath mixedTree calls := by
  intro calls
  have hsafe : Safe filePath mixedTree calls := .inl (.inl (by decide))
  have hplace : HasPlace ⟨mixedTree, filePath⟩ := hasPlace_of_read (read_oneFile _)
  obtain ⟨d, hd, hentries⟩ := contents_mixedTree
  have hloads : Loads mixedTree filePath d := fun key value => (exists_holds_iff hd key value).symm
  have hlegible : ∀ call ∈ calls, 1 ≤ call.room ∧
      ∃ d, (FileStore.mk mixedTree filePath).contents call.room = .ok d := by
    intro call hcall
    have hroom : call.room = 900 := by
      simp only [calls, List.mem_cons, List.not_mem_nil, or_false] at hcall
      rcases hcall with rfl | rfl | rfl <;> rfl
    exact ⟨by omega, d, hroom ▸ hd⟩
  have hcalm : ∀ call ∈ calls, call.Calm := by simp [calls, Call.Calm]
  obtain ⟨-, hmirrors, -⟩ := file_store_mirrors_memory_store (sound_oneFile _) filePath
  obtain ⟨hreplies, hpath⟩ := hmirrors d hloads calls hlegible hsafe
  exact ⟨sound_oneFile _, hsafe, hplace, d, hentries, hloads, hreplies, (hpath hcalm).2 hplace⟩

def Reply.found? : Reply → Option (Option RawText)
  | .value found => some found
  | _ => none

theorem found?_numberTree {n : Int} (hlong : Json.isTooLong n = true) (room : Nat)
    (key : RawText) :
    (replies filePath (numberTree n) [.get key (room + 1)]).map Reply.found? = [none] := by
  obtain ⟨limit, hlimit⟩ := contents_numberText hlong room
  have hroom : (FileStore.mk (numberTree n) filePath).contents (Call.get key (room + 1)).room =
      .error limit := hlimit
  simp only [replies, answer_of_limit hroom, List.map_cons, List.map_nil, Reply.found?]

/-- A file that holds a number with a digit too many is no empty store, and after a write that was
refused a path that goes up leads to a file where there was none. -/
theorem file_store_does_not_always_mirror :
    (replies filePath (numberTree (10 ^ Text.digitLimit)) [.get "s" 900]).map Reply.found? =
        [none] ∧
      (replies ⟨false, ["new", "..", "saves.json"]⟩ mixedTree
        [.get "s" 900, .set "a" "b" 900 "" (some ⟨1, none, "disk full"⟩), .get "s" 900]).map
          Reply.found? = [some none, none, some (some ("ok" : RawText))] := by
  exact ⟨found?_numberTree Json.isTooLong_pow 899 "s", by decide +kernel⟩

end FileStore

end VisualNovel.Save
