import VisualNovel.Proofs.Playback.Waits
import VisualNovel.Proofs.Playback.Walks

/-!
Every node that links lead to is entered in some run. A player who reads every text to its end, by
waiting for its characters, can then take each link: skip a video, go on, or make a choice. The
search of the script finds all the nodes that are entered exactly if it finds those behind skipped
videos.
-/
namespace VisualNovel.Playback

variable {τ ν : Type}

theorem Call.Plays.onward {call : Call τ} (h : call.Plays) : call.Onward := by
  cases h with
  | advance => exact Call.onward_advance
  | choose index => exact Call.onward_choose index
  | wait seconds => exact Call.onward_wait seconds

/-- A player is at a node of the script, with no automatic pacing and no ending under way. -/
structure Engine.Reads (e : Engine τ ν) (s : Script) (node : Node) : Prop where
  script : e.script = s
  sound : e.session.Sound e.script
  armed : e.Armed
  current : e.currentNode = some node
  pacing : e.session.pacing = .manual
  ending : e.session.ending = false

namespace Engine.Reads

variable {e : Engine τ ν} {s : Script} {node : Node}

theorem lingers (h : e.Reads s node) : e.Lingers s node where
  script := h.script
  sound := h.sound
  armed := h.armed
  current := h.current
  ending := h.ending
  waits := Or.inl h.pacing

theorem of_lingers {e' : Engine τ ν} (h : e.Reads s node) (hlingers : e'.Lingers s node)
    (hremains : e.session.Remains e'.session) : e'.Reads s node where
  script := hlingers.script
  sound := hlingers.sound
  armed := hlingers.armed
  current := hlingers.current
  pacing := hremains.pacing.trans h.pacing
  ending := hlingers.ending

theorem manual (h : e.Reads s node) :
    ({ e with session := { e.session with pacing := .manual } } : Engine τ ν) = e := by
  rw [← h.pacing]

variable [AddZeroClass τ] [Mul τ] [NatCast τ] [LinearOrder τ]

/-- A node that is entered by hand is read from its first character on. -/
theorem of_enter {e : Engine τ ν} {s : Script} {node : Node} (hscript : e.script = s)
    (hclears : e.Clears) (hview : e.session.view = .playing)
    (hpacing : e.session.pacing = .manual)
    (hhistory : ∀ id ∈ e.session.history, s.contains id = true)
    (hfound : s.get? node.id = some node) : (e.enter node).engine.Reads s node := by
  subst hscript
  have hsession := enter_session e node
  refine ⟨enter_script e node, ?_, hclears.enter_armed hview hfound, ?_, ?_, ?_⟩
  · rw [enter_script]
    exact enter_sound hview hhistory hfound
  · refine (currentNode_eq_some_iff _ node).mpr ⟨?_, node.id, ?_, ?_⟩
    · exact (congrArg Session.view hsession).trans hview
    · exact congrArg Session.current hsession
    · rw [enter_script]
      exact hfound
  · exact (congrArg Session.pacing hsession).trans hpacing
  · exact congrArg Session.ending hsession

theorem navigate (h : e.Reads s node) (hkeys : s.KeysAreIds) {target : Node}
    (hlink : Link s node target) : (e.navigate target).engine.Reads s target := by
  obtain ⟨key, hkey⟩ := hlink.exists_get?
  obtain ⟨hview, hat⟩ := Engine.at_of_currentNode h.sound h.current
  refine of_enter (e := { e with session := { e.session with
    history := e.session.history ++ e.session.current.toList } }) h.script
    (h.armed.clears.withSession _) hview h.pacing ?_ (hkeys.get?_id hkey)
  intro id hid
  rw [← h.script]
  rcases List.mem_append.mp hid with hold | hnew
  · exact hat.history id hold
  · exact hat.contains id hnew

variable [Save.KeyValueStore ν]

theorem exists_revealed [ExistsAddOfLE τ] (h : e.Reads s node) (hkeys : s.KeysAreIds) :
    ∃ e' : Engine τ ν, e.Drifts e' ∧ e'.Reads s node ∧ e'.session.reveal = .revealed := by
  obtain ⟨e', hdrifts, hlingers, hremains, hrevealed⟩ := h.lingers.exists_revealed hkeys
  exact ⟨e', hdrifts, h.of_lingers hlingers hremains, hrevealed⟩

/-- For each link there is an input that takes it from wherever the text is complete. -/
theorem exists_input {target : Node} (hlink : Link s node target) :
    ∃ input : Call τ, input.IsInput ∧ ∀ e : Engine τ ν, e.Reads s node →
      e.session.reveal = .revealed → e.Takes [input] (e.navigate target).engine := by
  cases hlink with
  | video hpast =>
    refine ⟨.advance, .advance, ?_⟩
    intro e h hrevealed
    exact h.lingers.advance_of_afterVideo hpast ▸ .advance e
  | @next id _ hvideo hchoices hnext hend htarget =>
    refine ⟨.advance, .advance, ?_⟩
    intro e h hrevealed
    have hsuccessor : e.successor node = some target := by
      unfold Engine.successor
      rw [hnext, h.script]
      simp [hend, htarget]
    have hadvance : e.advance = e.navigate target := by
      rw [h.lingers.advance_of_plain hvideo hchoices hrevealed, hsuccessor]
    exact hadvance ▸ .advance e
  | @choice choice _ hmem htarget =>
    obtain ⟨index, hindex⟩ := List.getElem?_of_mem hmem
    refine ⟨.choose index, .choose index, ?_⟩
    intro e h hrevealed
    have hresolve : e.script.resolve (some choice.target) = some target := by
      rw [h.script]
      exact htarget
    have hfollow : e.follow choice = e.navigate target := by
      unfold Engine.follow
      rw [hresolve]
      exact congrArg (fun e : Engine τ ν => e.navigate target) h.manual
    have hchosen := h.lingers.selectChoice_eq hrevealed hindex
    rw [hfollow] at hchosen
    exact .choose hchosen

theorem exists_link [ExistsAddOfLE τ] (h : e.Reads s node) (hkeys : s.KeysAreIds) {target : Node}
    (hlink : Link s node target) : ∃ e' : Engine τ ν, e.Leads e' ∧ e'.Reads s target := by
  obtain ⟨e₁, hdrifts, hreads, hrevealed⟩ := h.exists_revealed hkeys
  obtain ⟨input, hinput, htakes⟩ := exists_input (τ := τ) (ν := ν) hlink
  have hlast : e₁.Leads (e₁.navigate target).engine := by
    refine (htakes e₁ hreads hrevealed).leads ?_
    intro call hcall
    rw [List.mem_singleton.mp hcall]
    exact hinput.plays
  exact ⟨_, hdrifts.leads.trans hlast, hreads.navigate hkeys hlink⟩

end Engine.Reads

variable [AddZeroClass τ] [Mul τ] [NatCast τ] [LinearOrder τ]

theorem Engine.opening_reads {s : Script} {first : Node} (hkeys : s.KeysAreIds)
    (hstart : s.start? = some first) (timing : Timing τ) (saves : Option (Save.Repository ν)) :
    ((Engine.opening s timing saves).beginSession first).engine.Reads s first := by
  have hclears := (Engine.opening_sets s timing saves).clears.cancelTimers.clears
  exact .of_enter rfl (hclears.withSession { view := .playing }) rfl rfl (fun id hid => nomatch hid)
    (hkeys.get?_id hstart)

variable [Save.KeyValueStore ν]
variable [ExistsAddOfLE τ]

section Realization

theorem Playable.exists_reads {s : Script} {node : Node} (h : Playable s node)
    (hkeys : s.KeysAreIds) (timing : Timing τ) (saves : Option (Save.Repository ν)) :
    ∃ (first : Node) (e : Engine τ ν), s.start? = some first ∧
      ((Engine.opening s timing saves).beginSession first).engine.Leads e ∧ e.Reads s node := by
  induction h with
  | @start first hstart =>
    exact ⟨first, _, hstart, .refl _, Engine.opening_reads hkeys hstart timing saves⟩
  | link hnode hlink ih =>
    obtain ⟨first, e, hstart, hleads, hreads⟩ := ih
    obtain ⟨e', hleads', hreads'⟩ := hreads.exists_link hkeys hlink
    exact ⟨first, e', hstart, hleads.trans hleads', hreads'⟩

/-- A player comes to every node that links lead to. -/
theorem Playable.exists_play {s : Script} {node : Node} (h : Playable s node)
    (hkeys : s.KeysAreIds) (timing : Timing τ) (saves : Option (Save.Repository ν))
    (stamps : Stamps) :
    ∃ calls : List (Call τ), (∀ call ∈ calls, call.Plays) ∧
      ∃ least, ∀ fuel, least ≤ fuel →
        ((House.opening (Engine.opening s timing saves) stamps).play fuel
          (.newGame :: calls)).engine.currentNode = some node := by
  obtain ⟨first, e, hstart, ⟨calls, hcalls, least, hplay⟩, hreads⟩ :=
    h.exists_reads hkeys timing saves
  refine ⟨calls, hcalls, least + 1, ?_⟩
  intro fuel hfuel
  obtain ⟨less, rfl⟩ : ∃ less, fuel = less + 1 := ⟨fuel - 1, by omega⟩
  have hgranted : (Engine.opening s timing saves).outcome .newGame =
      some (.ok ((Engine.opening s timing saves).beginSession first)) :=
    Engine.outcome_newGame (e := Engine.opening s timing saves) hstart
  have hsilent : (House.opening (Engine.opening s timing saves) stamps).Silent := by
    intro listener hmem
    cases hmem
  obtain ⟨h', hpublish, hengine, hsame, -⟩ := publish_of_silent (perform less) hsilent
    ((Engine.opening s timing saves).beginSession first)
  have hbegun : (perform (less + 1) .newGame
      (House.opening (Engine.opening s timing saves) stamps)).2 = h' := by
    rw [perform_request (h := House.opening (Engine.opening s timing saves) stamps) hgranted]
    change (publish (perform less) _ _).2 = h'
    rw [hpublish]
  have hstill : h'.Silent := hsilent.of_listeners hsame
  have hdone := (hplay (less + 1) (by omega) h' hstill hengine).1
  change (House.play (less + 1) (perform (less + 1) .newGame _).2 calls).engine.currentNode = _
  rw [hbegun, hdone]
  exact hreads.current

/-- Every node that links lead to is on screen after some calls. -/
theorem Playable.exists_run {s : Script} {node : Node} (h : Playable s node)
    (hkeys : s.KeysAreIds) (timing : Timing τ) (saves : Option (Save.Repository ν))
    (stamps : Stamps) :
    ∃ (fuel : Nat) (calls : List (Call τ)), (∀ call ∈ calls, call.Within Call.Onward) ∧
      ((House.opening (Engine.opening s timing saves) stamps).play fuel
        (.newGame :: calls)).engine.currentNode = some node := by
  obtain ⟨calls, hcalls, least, hplay⟩ := h.exists_play hkeys timing saves stamps
  exact ⟨least, calls, fun call hcall => (hcalls call hcall).within (hcalls call hcall).onward,
    hplay least (Nat.le_refl least)⟩

/-- Whatever calls are made in a new game, short of loading a save, every node on screen is one that
the report lists as reachable and does not call unreachable. This holds of exactly those compiled
scripts whose search finds what lies behind every video that comes with choices. -/
theorem entered_nodes_are_reported_iff (c : Compiler) (text : String) (timing : Timing τ)
    (saves : Option (Save.Repository ν)) (stamps : Stamps) :
    (∀ (fuel : Nat) (calls : List (Call τ)), (∀ call ∈ calls, call.Within Call.Onward) →
        ∀ node, ((House.opening (Engine.opening (c.compile text).script timing saves) stamps).play
          fuel (.newGame :: calls)).engine.currentNode = some node →
        node.id ∈ (Graph.validate (c.compile text).script).reachable ∧
          s!"Node '{node.id}' is unreachable from start" ∉
            (Graph.validate (c.compile text).script).warnings) ↔
      SeesPastVideos (c.compile text).script := by
  have hkeys : (c.compile text).script.KeysAreIds := Compiler.keysAreIds_compile c text
  constructor
  · intro hreported node target hnode hdecision hpast
    have htarget : Playable (c.compile text).script target := .link hnode (.video hpast)
    obtain ⟨fuel, calls, hcalls, hcurrent⟩ := htarget.exists_run hkeys timing saves stamps
    exact (hreported fuel calls hcalls target hcurrent).1
  · intro hsees fuel calls hcalls node hcurrent
    have hnew : Call.Within Call.Onward (.newGame : Call τ) :=
      Call.within_of_plain rfl Call.onward_newGame
    have hall : ∀ call ∈ Call.newGame :: calls, call.Within Call.Onward := by
      intro call hcall
      rcases List.mem_cons.mp hcall with rfl | hrest
      · exact hnew
      · exact hcalls call hrest
    have hsteps := House.play_steps fuel (.newGame :: calls) hall
      (Engine.opening (c.compile text).script timing saves) stamps
    have hwalks := Steps.walks hsteps hkeys (Engine.walks_title rfl)
    have hplayable := hwalks.currentNode hcurrent
    rw [Steps.script hsteps] at hplayable
    have hfound := hplayable.mem_reachable hkeys hsees
    have hstart := hplayable.start_isSome
    refine ⟨(Graph.mem_validate_reachable hstart).mpr hfound, ?_⟩
    intro hwarned
    exact ((Graph.unreachable_mem_warnings hstart).mp hwarned).2 hfound

end Realization

/-- A film over a question. Skipping the film leads to the last line, and the answer may lead
elsewhere. -/
def filmCompiler : Compiler := { catalog := Asset.Catalog.empty.add .video "v" "v.mp4" }

def filmText (answer : String) : String :=
  "【video:v】\nHi\n# b\nA. go >> " ++ answer ++ "\nB\n【returntitle】"

def filmScript (answer : String) : Script := (filmCompiler.compile (filmText answer)).script

def filmOpening (answer : String) : House Nat Save.MemoryStore :=
  .opening (.opening (filmScript answer) Timing.usual none) ⟨[], 0⟩

theorem advance_within_onward :
    ∀ call ∈ [Call.advance], Call.Within (τ := Nat) Call.Onward call := by
  intro call hcall
  rw [List.mem_singleton.mp hcall]
  exact Call.within_of_plain rfl Call.onward_advance

/-- The answer leads to the last line, too, so the search finds it. -/
theorem seesPastVideos_filmScript : SeesPastVideos (filmScript "b") := by
  have hstartId : (filmScript "b").startId = "start" := by decide +kernel
  have hkeys : (filmScript "b").nodes.keys = ["start", "b"] := by decide +kernel
  have hfirst : ((filmScript "b").get? "start").map (fun n => (n.next, n.successors)) =
      some (some "b", ["b"]) := by decide +kernel
  have hlast : ((filmScript "b").get? "b").map (·.isDecision) = some false := by decide +kernel
  have hids : (filmScript "b").KeysAreIds := Compiler.keysAreIds_compile filmCompiler (filmText "b")
  intro node target hnode hdecision hpast
  obtain ⟨-, id, hid, -, htarget⟩ := Script.afterVideo?_eq_some hpast
  obtain ⟨key, hkey⟩ := hnode.exists_get?
  have hmem : key ∈ (filmScript "b").nodes.keys :=
    (KeyedList.isSome_get?_iff _ key).mp (Option.isSome_of_eq_some hkey)
  rw [hkeys, List.mem_cons, List.mem_singleton] at hmem
  rcases hmem with rfl | rfl
  · rw [hkey, Option.map_some, Option.some.injEq, Prod.mk.injEq] at hfirst
    have hb : id = "b" := by
      rw [hid, Option.some.injEq] at hfirst
      exact hfirst.1
    subst hb
    rw [Graph.mem_validate_reachable hnode.start_isSome, hids "b" target htarget]
    have hsuccessor : "b" ∈ node.successors := by
      rw [hfirst.2]
      exact List.mem_singleton.mpr rfl
    have hreached : "start" ∈ Graph.reachable (filmScript "b") :=
      hstartId ▸ Graph.start_mem_reachable (filmScript "b")
    exact Graph.mem_reachable_of_successor hreached hkey hsuccessor htarget
  · rw [hkey, Option.map_some, hdecision] at hlast
    cases hlast

theorem entered_nodes_are_reported_in_a_story :
    SeesPastVideos (filmScript "b") ∧
      ((filmOpening "b").play 1 [.newGame, .advance]).engine.currentNode.map (·.id) = some "b" ∧
      "b" ∈ (Graph.validate (filmScript "b")).reachable := by
  have hentered : ((filmOpening "b").play 1 [.newGame, .advance]).engine.currentNode.map (·.id) =
      some "b" := by decide +kernel
  refine ⟨seesPastVideos_filmScript, hentered, ?_⟩
  obtain ⟨node, hnode, hid⟩ := Option.map_eq_some_iff.mp hentered
  unfold filmOpening at hnode
  have hreported := (entered_nodes_are_reported_iff filmCompiler (filmText "b") Timing.usual none
    ⟨[], 0⟩).mpr seesPastVideos_filmScript 1 [.advance] advance_within_onward node hnode
  rw [hid] at hreported
  exact hreported.1

theorem reachable_filmScript : Graph.reachable (filmScript "start") = ["start"] := by
  have hstartId : (filmScript "start").startId = "start" := by decide +kernel
  have hkeys : (filmScript "start").nodes.keys = ["start", "b"] := by decide +kernel
  have htargets : Graph.targets (filmScript "start") "start" = ["start"] := by decide +kernel
  have hwaiting : Graph.among ["start"] (["start", "b"].filter (· != "start")) = [] := by decide
  unfold Graph.reachable
  rw [hkeys, hstartId, Graph.explore, htargets, hwaiting, List.append_nil, Graph.explore]

/-- The last line is entered although the report calls it unreachable. -/
theorem a_skipped_film_leads_to_an_unreported_node :
    (filmScript "start").start?.isSome = true ∧
      (∀ call ∈ [Call.advance], Call.Within (τ := Nat) Call.Onward call) ∧
      ((filmOpening "start").play 1 [.newGame, .advance]).engine.currentNode.map (·.id) =
        some "b" ∧
      "b" ∉ (Graph.validate (filmScript "start")).reachable ∧
      "Node 'b' is unreachable from start" ∈ (Graph.validate (filmScript "start")).warnings := by
  have hstart : (filmScript "start").start?.isSome = true := by decide +kernel
  have hkey : "b" ∈ (filmScript "start").nodes.keys := by decide +kernel
  have hmissed : "b" ∉ Graph.reachable (filmScript "start") := by
    rw [reachable_filmScript]
    decide
  refine ⟨hstart, advance_within_onward, by decide +kernel, ?_, ?_⟩
  · rw [Graph.mem_validate_reachable hstart]
    exact hmissed
  · exact (Graph.unreachable_mem_warnings hstart).mpr ⟨hkey, hmissed⟩

end VisualNovel.Playback
