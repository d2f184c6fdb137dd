import VisualNovel.Proofs.Script.Repetitions
import VisualNovel.Proofs.Text.Numerals

/-!
Identifiers that are made up for dialogue lines without a label. Their numbers go up along the text,
so that no two of them are the same. But nobody looks whether a writer has used one of them as a
name: they are safe exactly if no dialogue line is called by an identifier that is made up for
another.
-/
namespace VisualNovel

namespace Place

theorem mem_withEarlier_iff {α : Type} {xs earlier : List α} {x : α} :
    (earlier, x) ∈ withEarlier xs ↔ ∃ later, xs = earlier ++ x :: later := by
  induction xs using List.reverseRecOn with
  | nil => simp [withEarlier]
  | append_singleton xs last ih =>
    rw [withEarlier_concat, List.mem_append, List.mem_singleton, ih, Prod.mk.injEq]
    constructor
    · rintro (⟨later, rfl⟩ | ⟨rfl, rfl⟩)
      · exact ⟨later ++ [last], by simp⟩
      · exact ⟨[], rfl⟩
    · rintro ⟨later, hsplit⟩
      rcases List.eq_nil_or_concat' later with rfl | ⟨rest, final, rfl⟩
      · obtain ⟨rfl, hlast⟩ := List.append_inj' hsplit rfl
        exact Or.inr ⟨rfl, (List.singleton_inj.mp hlast).symm⟩
      · rw [← List.cons_append, ← List.append_assoc] at hsplit
        exact Or.inl ⟨rest, (List.append_inj' hsplit rfl).1⟩

/-- The lines before a later dialogue line go on from an earlier one. -/
theorem exists_before {p q : Place} (hlines : q.lines = p.lines)
    (hlater : p.before.length < q.before.length) :
    ∃ more, q.before = p.before ++ .dialogue p.dialogue :: more := by
  obtain ⟨more, hmore⟩ := List.prefix_of_prefix_length_le (hlines ▸ p.upTo_prefix)
    (List.prefix_append q.before (.dialogue q.dialogue :: q.after))
    (by simpa using Nat.succ_le_of_lt hlater)
  exact ⟨more, by simpa using hmore.symm⟩

theorem exists_of_mem_idsIn {startId id : String} {lines : List Line}
    (h : id ∈ idsIn startId lines) :
    ∃ p : Place, p.lines = lines ∧ p.id startId = id := by
  obtain ⟨⟨earlier, line⟩, hmem, hid⟩ := List.mem_filterMap.mp h
  obtain ⟨later, rfl⟩ := mem_withEarlier_iff.mp hmem
  cases line with
  | dialogue dialogue => exact ⟨⟨earlier, dialogue, later⟩, rfl, Option.some.inj hid⟩
  | _ => cases hid

section Naming
variable (startId : String)

/-- What a writer calls the dialogue line: by a label, or by beginning the story with it. -/
def name? (p : Place) : Option String := pendingLabel startId p.before

/-- No dialogue line is called by an identifier that is made up for another. -/
def NamesSpareMadeUp (lines : List Line) : Prop :=
  ∀ p q : Place, p.lines = lines → q.lines = lines → p.name? startId = none →
    q.name? startId ≠ some (p.id startId)

theorem counter_le_append (before more : List Line) :
    counter startId before ≤ counter startId (before ++ more) := by
  induction more using List.reverseRecOn with
  | nil => simp
  | append_singleton more line ih =>
    rw [← List.append_assoc, counter_concat]
    omega

variable {startId}

theorem id_of_name? {p : Place} {name : String} (h : p.name? startId = some name) :
    p.id startId = name := by
  unfold name? at h
  unfold Place.id idAfter
  rw [h, Option.getD_some]

theorem id_of_unnamed {p : Place} (h : p.name? startId = none) :
    p.id startId = Compile.nodeStem ++ toString (counter startId p.before) := by
  unfold name? at h
  unfold Place.id idAfter
  rw [h, Option.getD_none]

theorem counter_lt_of_later {p q : Place} (hp : p.name? startId = none) (hlines : q.lines = p.lines)
    (hlater : p.before.length < q.before.length) :
    counter startId p.before < counter startId q.before := by
  obtain ⟨more, hmore⟩ := exists_before hlines hlater
  have htakes : takesNumber startId p.before (.dialogue p.dialogue) = true := by
    unfold name? at hp
    rw [takesNumber, hp, Option.isNone_none]
  have hstep := counter_concat startId p.before (.dialogue p.dialogue)
  have hgrows := counter_le_append startId (p.before ++ [.dialogue p.dialogue]) more
  rw [htakes, if_pos rfl] at hstep
  rw [List.append_assoc, List.singleton_append, ← hmore] at hgrows
  omega

theorem eq_of_unnamed {p q : Place} (hp : p.name? startId = none) (hq : q.name? startId = none)
    (hlines : q.lines = p.lines) (hid : p.id startId = q.id startId) : p = q := by
  rw [id_of_unnamed hp, id_of_unnamed hq, String.append_right_inj] at hid
  have hnumber : counter startId p.before = counter startId q.before :=
    Text.toString_inj hid
  rcases Nat.lt_trichotomy p.before.length q.before.length with hlt | heq | hlt
  · have hgrows := counter_lt_of_later hp hlines hlt
    omega
  · exact eq_of_length hlines.symm heq
  · have hgrows := counter_lt_of_later hq hlines.symm hlt
    omega

/-- Another dialogue line has a made-up identifier only if a writer has called it so. -/
theorem id_eq_iff_of_unnamed {p q : Place} (hp : p.name? startId = none)
    (hlines : q.lines = p.lines) (hne : p ≠ q) :
    p.id startId = q.id startId ↔ q.name? startId = some (p.id startId) := by
  constructor
  · intro hid
    cases hq : q.name? startId with
    | none => exact absurd (eq_of_unnamed hp hq hlines hid) hne
    | some name => rw [hid, id_of_name? hq]
  · intro hq
    exact (id_of_name? hq).symm

end Naming

end Place

namespace Compile

/-- A repetition comes from two dialogue lines with one identifier. -/
theorem exists_of_mem_repetitions {startId : String} {lines : List Located} {d : Diagnostic}
    (h : d ∈ repetitions startId lines) :
    ∃ (p q : Place) (here : Located), p.lines = lines.map Located.line ∧ q.lines = p.lines ∧
      p.before.length < q.before.length ∧ p.id startId = q.id startId ∧
      lines[q.before.length]? = some here ∧ d = repetition here (q.id startId) := by
  obtain ⟨⟨earlier, here⟩, hmem, hreport⟩ := List.mem_filterMap.mp h
  obtain ⟨later, rfl⟩ := Place.mem_withEarlier_iff.mp hmem
  unfold repetition? at hreport
  dsimp only at hreport
  split at hreport
  · next htaken =>
    obtain ⟨hdialogue, hgiven⟩ := htaken
    obtain ⟨old, hold, hid⟩ := Place.exists_of_mem_idsIn hgiven
    cases hline : here.line with
    | dialogue dialogue =>
      refine ⟨⟨old.before, old.dialogue,
        old.after ++ .dialogue dialogue :: later.map Located.line⟩,
        ⟨earlier.map Located.line, dialogue, later.map Located.line⟩, here, ?_, ?_, ?_, hid, ?_,
        (Option.some.inj hreport).symm⟩
      · rw [List.map_append, List.map_cons, hline, ← hold]
        simp [Place.lines]
      · rw [Place.lines, ← hold]
        simp [Place.lines]
      · change old.before.length < (earlier.map Located.line).length
        rw [← hold]
        simp [Place.lines]
      · simp
    | _ =>
      rw [hline] at hdialogue
      cases hdialogue
  · cases hreport

end Compile

namespace Compiler

/-- Made-up identifiers are fresh, dialogue lines with such an identifier keep their nodes, and
every report of a repetition comes from two uses of one name, exactly if no dialogue line is called
by an identifier that is made up for another. -/
theorem made_up_identifiers_are_fresh_iff (c : Compiler) (text : String) :
    ((∀ p q : Place, p.lines = Compile.linesOf text → q.lines = Compile.linesOf text →
          p.name? c.startId = none → p ≠ q → p.id c.startId ≠ q.id c.startId) ∧
        (∀ p : Place, p.lines = Compile.linesOf text → p.name? c.startId = none →
          ∃ node, (c.compile text).script.get? (p.id c.startId) = some node ∧
            node.dialogue = p.dialogue ∧
            node.scene = p.scene c.catalog c.defaultBackground) ∧
        ∀ d ∈ (c.compile text).diagnostics, d.code = Compile.duplicateCode →
          ∃ (p q : Place) (here : Compile.Located) (name : String),
            p.lines = Compile.linesOf text ∧ q.lines = Compile.linesOf text ∧
              p.before.length < q.before.length ∧ p.name? c.startId = some name ∧
              q.name? c.startId = some name ∧
              (Compile.locatedLines text)[q.before.length]? = some here ∧
              d = Compile.repetition here name) ↔
      Place.NamesSpareMadeUp c.startId (Compile.linesOf text) := by
  constructor
  · rintro ⟨hfresh, -, -⟩ p q hp hq hunnamed hname
    have hne : p ≠ q := by
      rintro rfl
      rw [hunnamed] at hname
      cases hname
    exact hfresh p q hp hq hunnamed hne (Place.id_of_name? hname).symm
  · intro hspare
    have hfresh : ∀ p q : Place, p.lines = Compile.linesOf text → q.lines = Compile.linesOf text →
        p.name? c.startId = none → p ≠ q → p.id c.startId ≠ q.id c.startId := by
      intro p q hp hq hunnamed hne hid
      exact hspare p q hp hq hunnamed
        ((Place.id_eq_iff_of_unnamed hunnamed (hq.trans hp.symm) hne).mp hid)
    refine ⟨hfresh, ?_, ?_⟩
    · intro p hp hunnamed
      have hlast : p.IsLast c.startId := by
        intro q hq hlater hid
        have hne : p ≠ q := by
          rintro rfl
          omega
        exact hfresh p q hp (hq.trans hp) hunnamed hne hid.symm
      obtain ⟨node, hnode, hscene⟩ := (Compile.pictures_run c text).drafted p hp hlast
      obtain ⟨other, hother, hid, hotherLast, hdescribes, -⟩ := Compile.exists_place c text hnode
      have hsame : other = p := hotherLast.unique hlast (hother.trans hp.symm) hid
      exact ⟨node, hnode, hsame ▸ hdescribes.dialogue_eq, hscene⟩
    · intro d hd hcode
      have hmem : d ∈ Compile.repetitions c.startId (Compile.locatedLines text) := by
        rw [← Compile.filter_diagnostics, List.mem_filter]
        exact ⟨hd, by simpa using hcode⟩
      obtain ⟨p, q, here, hp, hq, hlater, hid, hhere, hreport⟩ :=
        Compile.exists_of_mem_repetitions hmem
      have hne : p ≠ q := by
        rintro rfl
        omega
      have hnamed : ∀ r s : Place, r.lines = Compile.linesOf text →
          s.lines = Compile.linesOf text → r ≠ s → r.id c.startId = s.id c.startId →
          r.name? c.startId = some (r.id c.startId) := by
        intro r s hr hs hother hsame
        cases hname : r.name? c.startId with
        | none => exact absurd hsame (hfresh r s hr hs hname hother)
        | some name => rw [Place.id_of_name? hname]
      refine ⟨p, q, here, q.id c.startId, hp, hq.trans hp, hlater, ?_, ?_, hhere, hreport⟩
      · rw [← hid]
        exact hnamed p q hp (hq.trans hp) hne hid
      · exact hnamed q p (hq.trans hp) hp hne.symm hid.symm

/-- A label is spelled like the first identifier that is made up. -/
def borrowedText : String := "# node_0\nHi\nYo"

/-- The second dialogue line takes over the identifier of the first one, and its node is lost. -/
theorem a_borrowed_identifier_loses_its_node :
    ∃ p q : Place, p.lines = Compile.linesOf borrowedText ∧
      q.lines = Compile.linesOf borrowedText ∧ p ≠ q ∧ p.name? "start" = some "node_0" ∧
      q.name? "start" = none ∧ q.id "start" = p.id "start" ∧
      (({} : Compiler).compile borrowedText).script.nodes.keys = ["node_0"] ∧
      (({} : Compiler).compile borrowedText).script.get? "node_0" =
        some { id := "node_0", text := "Yo" } := by
  refine ⟨⟨[.label "node_0"], ⟨none, "Hi"⟩, [.dialogue ⟨none, "Yo"⟩]⟩,
    ⟨[.label "node_0", .dialogue ⟨none, "Hi"⟩], ⟨none, "Yo"⟩, []⟩, ?_⟩
  have hne : ∀ (a b : List Line) (d e : Line.Dialogue) (r s : List Line), a.length ≠ b.length →
      (⟨a, d, r⟩ : Place) ≠ ⟨b, e, s⟩ := by
    rintro a b d e r s hlength hsame
    exact hlength (congrArg (·.before.length) hsame)
  exact ⟨by decide +kernel, by decide +kernel, hne _ _ _ _ _ _ (by decide), by decide +kernel,
    by decide +kernel, by decide +kernel, by decide +kernel, by decide +kernel⟩

end Compiler

end VisualNovel
