import VisualNovel.Proofs.Playback.WaysOut

/-!
Reported nodes that can be played. The search follows every link to a key of the script, play all
but those to the end of a session. So a player comes to every key that links lead to which do not
name the end, and to no node under that name unless the story starts there.
-/
namespace VisualNovel

/-- Play can follow every link of a node to another one, except those that name the end. -/
theorem Link.of_successor {s : Script} (hnamed : s.get? "" = none) {node target : Node}
    {t : String} (ht : t ∈ node.successors) (hend : t ≠ endTarget)
    (htarget : s.get? t = some target) : Link s node target := by
  by_cases hchoices : node.choices = []
  · have hnext : node.next = some t := by simpa [Node.successors, hchoices] using ht
    cases hvideo : node.hasVideo with
    | true =>
      refine .video (Script.afterVideo?_of_next hvideo hnext ?_ hend htarget)
      rintro rfl
      rw [hnamed] at htarget
      cases htarget
    | false => exact .next hvideo hchoices hnext hend htarget
  · have hoffered : t ∈ node.choices.map (·.target) := by
      simpa [Node.successors, hchoices] using ht
    obtain ⟨choice, hmem, rfl⟩ := List.mem_map.mp hoffered
    refine .choice hmem ?_
    simp [Script.resolve, hend, htarget]

/-- A node under the name of the end is a target only as the start. -/
theorem Link.id_ne_endTarget {s : Script} (hkeys : s.KeysAreIds) (hstart : s.startId ≠ endTarget)
    {node target : Node} (h : Link s node target) : target.id ≠ endTarget := by
  cases h with
  | video hpast =>
    obtain ⟨-, id, -, hend, htarget⟩ := Script.afterVideo?_eq_some hpast
    rw [hkeys id target htarget]
    exact hend
  | @next id _ hvideo hchoices hnext hend htarget =>
    rw [hkeys id target htarget]
    exact hend
  | @choice choice _ hmem htarget =>
    by_cases hend : choice.target = endTarget
    · rw [Script.resolve, if_pos hend] at htarget
      rw [hkeys s.startId target htarget]
      exact hstart
    · rcases Script.resolve_cases htarget with hfound | hfound
      · rw [hkeys s.startId target hfound]
        exact hstart
      · rw [hkeys choice.target target hfound]
        exact hend

namespace Playback

theorem Playable.of_reached {s : Script} (hnamed : s.get? "" = none)
    (hstart : s.start?.isSome = true) {id : String}
    (h : Graph.Reached s (· ≠ endTarget) id) : ∃ node, s.get? id = some node ∧ Playable s node := by
  induction h with
  | start =>
    obtain ⟨node, hnode⟩ := Option.isSome_iff_exists.mp hstart
    exact ⟨node, hnode, .start hnode⟩
  | link hid hnode ht hend htarget ih =>
    obtain ⟨node, hfound, hplayable⟩ := ih
    rw [hnode, Option.some.injEq] at hfound
    subst hfound
    exact ⟨_, htarget, hplayable.link (.of_successor hnamed ht hend htarget)⟩

theorem Playable.id_ne_endTarget {s : Script} (hkeys : s.KeysAreIds)
    (hstart : s.startId ≠ endTarget) {node : Node} (h : Playable s node) :
    node.id ≠ endTarget := by
  cases h with
  | start hnode =>
    rw [hkeys s.startId node hnode]
    exact hstart
  | link hnode hlink => exact hlink.id_ne_endTarget hkeys hstart

variable {τ ν : Type}
variable [Save.KeyValueStore ν]
variable [AddZeroClass τ] [Mul τ] [NatCast τ] [LinearOrder τ]

/-- Whatever is called in a new game, short of loading a save, play is at a node that links lead
to. -/
theorem Playable.of_run {s : Script} (hkeys : s.KeysAreIds) (timing : Timing τ)
    (saves : Option (Save.Repository ν)) (stamps : Stamps) (fuel : Nat) {calls : List (Call τ)}
    (hcalls : ∀ call ∈ calls, call.Plays) {node : Node}
    (hcurrent : ((House.opening (Engine.opening s timing saves) stamps).play fuel
      (.newGame :: calls)).engine.currentNode = some node) : Playable s node := by
  have hall : ∀ call ∈ Call.newGame :: calls, call.Within Call.Onward := by
    intro call hcall
    rcases List.mem_cons.mp hcall with rfl | hrest
    · exact Call.within_of_plain rfl Call.onward_newGame
    · exact (hcalls call hrest).within (hcalls call hrest).onward
  have hsteps := House.play_steps fuel (.newGame :: calls) hall (Engine.opening s timing saves)
    stamps
  have hplayable := (Steps.walks hsteps hkeys (Engine.walks_title rfl)).currentNode hcurrent
  rwa [Steps.script hsteps] at hplayable

/-- Going on, choosing and waiting bring a new game to the node under a key, given enough fuel. -/
def ComesTo (s : Script) (timing : Timing τ) (saves : Option (Save.Repository ν))
    (stamps : Stamps) (id : String) : Prop :=
  ∃ calls : List (Call τ), (∀ call ∈ calls, call.Plays) ∧
    ∃ least, ∀ fuel, least ≤ fuel →
      ((House.opening (Engine.opening s timing saves) stamps).play fuel
        (.newGame :: calls)).engine.currentNode.map (·.id) = some id

/-- A player comes to every reported key that links lead to which do not name the end. These are all
the reported keys exactly if no node under that name is reported, or the story starts there. -/
theorem reported_nodes_can_be_played_iff [ExistsAddOfLE τ] (c : Compiler) (text : String)
    (timing : Timing τ) (saves : Option (Save.Repository ν)) (stamps : Stamps) :
    let s := (c.compile text).script
    (∀ id ∈ (Graph.validate s).reachable, Graph.Reached s (· ≠ endTarget) id →
        ComesTo s timing saves stamps id) ∧
      ((∀ id ∈ (Graph.validate s).reachable, ComesTo s timing saves stamps id) ↔
        (endTarget ∈ (Graph.validate s).reachable → s.startId = endTarget)) := by
  intro s
  have hkeys : s.KeysAreIds := Compiler.keysAreIds_compile c text
  have hplayed : ∀ id ∈ (Graph.validate s).reachable, Graph.Reached s (· ≠ endTarget) id →
      ComesTo s timing saves stamps id := by
    intro id hreported hreached
    have hstart : s.start?.isSome = true := Graph.start_of_mem_reachable hreported
    obtain ⟨node, hnode, hplayable⟩ := Playable.of_reached (c.get?_empty text) hstart hreached
    obtain ⟨calls, hcalls, least, hplay⟩ := hplayable.exists_play hkeys timing saves stamps
    refine ⟨calls, hcalls, least, fun fuel hfuel => ?_⟩
    rw [hplay fuel hfuel, Option.map_some, hkeys id node hnode]
  refine ⟨hplayed, ?_, ?_⟩
  · intro hall hend
    by_contra hstart
    obtain ⟨calls, hcalls, least, hplay⟩ := hall endTarget hend
    obtain ⟨node, hcurrent, hid⟩ := Option.map_eq_some_iff.mp (hplay least (Nat.le_refl least))
    have hplayable := Playable.of_run hkeys timing saves stamps least hcalls hcurrent
    exact hplayable.id_ne_endTarget hkeys hstart hid
  · intro hend id hreported
    have hstart : s.start?.isSome = true := Graph.start_of_mem_reachable hreported
    have hreached := Graph.mem_reachable_iff.mp ((Graph.mem_validate_reachable hstart).mp hreported)
    refine hplayed id hreported (hreached.avoiding fun hnamed => ?_)
    have hmem := (Graph.mem_validate_reachable hstart).mpr (Graph.mem_reachable_iff.mpr hnamed)
    exact (hend hmem).symm

theorem reported_nodes_can_be_played_in_a_story :
    "left" ∈ (Graph.validate forkScript).reachable ∧
      endTarget ∉ (Graph.validate forkScript).reachable ∧
      ComesTo forkScript Timing.usual (none : Option (Save.Repository Save.MemoryStore)) ⟨[], 0⟩
        "left" := by
  have hstart : forkScript.start?.isSome = true := by decide +kernel
  have hreported : "left" ∈ (Graph.validate forkScript).reachable :=
    (Graph.mem_validate_reachable hstart).mpr left_mem_reachable
  have hend : endTarget ∉ (Graph.validate forkScript).reachable := by
    have hmissing : (forkScript.get? endTarget).isSome = false := by decide +kernel
    intro hnamed
    have hreached := (Graph.mem_validate_reachable hstart).mp hnamed
    have hkey := (Graph.mem_reachable_iff.mp hreached).isSome_get? hstart
    rw [hmissing] at hkey
    cases hkey
  exact ⟨hreported, hend, (reported_nodes_can_be_played_iff {} forkText Timing.usual none
    ⟨[], 0⟩).2.mpr (fun hnamed => absurd hnamed hend) "left" hreported⟩

/-- A last line under the name of the end. -/
def namedEndText : String := "Hi\n# END\nBye"

def namedEndScript : Script := (({} : Compiler).compile namedEndText).script

/-- It is reported, in a script without broken links, and never played. -/
theorem a_line_named_for_the_end_is_never_played :
    (Graph.validate namedEndScript).isValid = true ∧
      endTarget ∈ (Graph.validate namedEndScript).reachable ∧
      ∀ (timing : Timing Nat) (saves : Option (Save.Repository Save.MemoryStore))
        (stamps : Stamps), ¬ ComesTo namedEndScript timing saves stamps endTarget := by
  have hstart : namedEndScript.start?.isSome = true := by decide +kernel
  have hstartId : namedEndScript.startId = "start" := by decide +kernel
  have hfirst : (namedEndScript.get? "start").map Node.successors = some [endTarget] := by
    decide +kernel
  have hlast : (namedEndScript.get? endTarget).isSome = true := by decide +kernel
  have hkeys : namedEndScript.KeysAreIds := Compiler.keysAreIds_compile {} namedEndText
  refine ⟨by decide +kernel, (Graph.mem_validate_reachable hstart).mpr ?_, ?_⟩
  · obtain ⟨node, hnode, hsuccessors⟩ := Option.map_eq_some_iff.mp hfirst
    obtain ⟨target, htarget⟩ := Option.isSome_iff_exists.mp hlast
    exact Graph.mem_reachable_of_successor (hstartId ▸ Graph.start_mem_reachable namedEndScript)
      hnode (by simp [hsuccessors]) htarget
  · rintro timing saves stamps ⟨calls, hcalls, least, hplay⟩
    obtain ⟨node, hcurrent, hid⟩ := Option.map_eq_some_iff.mp (hplay least (Nat.le_refl least))
    have hplayable := Playable.of_run hkeys timing saves stamps least hcalls hcurrent
    exact hplayable.id_ne_endTarget hkeys (by rw [hstartId]; decide) hid

end Playback

end VisualNovel
