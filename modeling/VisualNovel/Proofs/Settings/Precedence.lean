import VisualNovel.Settings.Sources
import VisualNovel.Proofs.Settings.Reading

/-!
Which source a setting comes from. The documented order is arguments, files from the last to the
first, variables, the file of variables, default. What is read of a configuration file includes the
variables around it, so in truth variables stand behind every single file: they give way to the last
file and win over all files before it. The settings are those of the documented order exactly if at
no field the variables so get ahead of an earlier file, or of the file of variables that was named,
with something else to say.
-/
namespace VisualNovel.Settings

namespace Layer

variable {s : Surroundings} {L L' M M' : Layer}

/-- The first layer of a list wins. -/
def first : List Layer → Layer
  | [] => empty
  | layer :: rest => layer.above (first rest)

theorem empty_above (L : Layer) : empty.above L = L := rfl

theorem above_empty (L : Layer) : L.above empty = L := by
  funext f
  simp [above, empty]

theorem above_assoc (a b c : Layer) : (a.above b).above c = a.above (b.above c) := by
  funext f
  simp [above, Option.or_assoc]

theorem above_of_some {f : Field} {g : Given} (h : L f = some g) : (L.above M) f = some g := by
  simp [above, h]

theorem above_of_none {f : Field} (h : L f = none) : (L.above M) f = M f := by
  simp [above, h]

theorem first_append (layers layers' : List Layer) :
    first (layers ++ layers') = (first layers).above (first layers') := by
  induction layers with
  | nil => rfl
  | cons layer layers ih => rw [List.cons_append, first, ih, first, above_assoc]

/-- Layers that give something for the same fields, and the same readings. -/
def Alike (s : Surroundings) (L L' : Layer) : Prop :=
  ∀ f, L f = L' f ∨ ∃ g g' c, L f = some g ∧ L' f = some g' ∧
    (f.reader s).settle (some g) = some c ∧ (f.reader s).settle (some g') = some c

theorem Alike.refl (L : Layer) : Alike s L L := fun _ => .inl rfl

theorem Alike.trans {K : Layer} (h : Alike s K L) (h' : Alike s L M) : Alike s K M := by
  intro f
  obtain hsame | ⟨g, g', c, hg, hg', hread⟩ := h f
  · rw [hsame]
    exact h' f
  · obtain hsame | ⟨k, k', d, hk, hk', hread'⟩ := h' f
    · exact .inr ⟨g, g', c, hg, hsame ▸ hg', hread⟩
    · obtain rfl := Option.some.inj (hg'.symm.trans hk)
      exact .inr ⟨g, k', c, hg, hk', hread.1, hread'.2.trans (hread'.1.symm.trans hread.2)⟩

theorem Alike.above (h : Alike s L L') (h' : Alike s M M') : Alike s (L.above M) (L'.above M') := by
  intro f
  obtain hsame | ⟨g, g', c, hg, hg', hread⟩ := h f
  · cases hL : L f with
    | some g => exact .inl ((above_of_some hL).trans (above_of_some (hsame ▸ hL)).symm)
    | none =>
      rw [above_of_none hL, above_of_none (hsame ▸ hL)]
      exact h' f
  · exact .inr ⟨g, g', c, above_of_some hg, above_of_some hg', hread⟩

theorem Alike.ofLayer_eq (h : Alike s L L') : ofLayer s L = ofLayer s L' := by
  refine ofLayer_congr fun f => ?_
  obtain hsame | ⟨g, g', c, hg, hg', hread⟩ := h f
  · exact .inl hsame
  · exact .inr ⟨c, hg ▸ hread.1, hg' ▸ hread.2⟩

/-- An argument that is nothing counts as not given. -/
def isGiven : String × Given → Bool
  | (_, .plain .null) => false
  | _ => true

def ofArguments (arguments : List (String × Given)) : Layer :=
  ofEntries (arguments.filter isGiven)

def ofConfig (e : Environment) (path : Disk.Path) : Layer :=
  match Data.readMapping e.tree path with
  | .ok config => (config.mapM textEntry?).elim empty ofEntries
  | .error _ => empty

/-- The documented order of the sources, without the defaults. -/
def documented (e : Environment) (files : List Disk.Path) (named : Layer)
    (arguments : List (String × Given)) : Layer :=
  first (ofArguments arguments ::
    (files.reverse.map (ofConfig e) ++ [ofVariables e.vars, named]))

def ofConfigRead (e : Environment) (usual : Layer) (path : Disk.Path) : Layer :=
  (ofConfig e path).above ((ofVariables e.vars).above usual)

def ofConfigsRead (e : Environment) (usual : Layer) (files : List Disk.Path) : Layer :=
  first (files.reverse.map (ofConfigRead e usual))

/-- The order in which the sources are truly heeded. -/
def heeded (e : Environment) (usual : Layer) (files : List Disk.Path) (named : Layer)
    (arguments : List (String × Given)) : Layer :=
  (ofArguments arguments).above
    ((ofConfigsRead e usual files).above ((ofVariables e.vars).above named))

end Layer

/-- The file of variables for a name; the empty name stands for the usual one. -/
def variablesFile (envFile : Option String) : Disk.Path :=
  ((envFile.filter (!·.isEmpty)).map Disk.Path.ofText).getD envFileName

section Sources

open Layer

variable {e : Environment} {usual named : Layer} {files : List Disk.Path} {envFile : Option String}
  {arguments : List (String × Given)}

/-- Settings are made of what is given, the variables and what the file of variables gives. -/
theorem make_eq_ok_iff {path : Disk.Path} {given found : Layer}
    (hfound : Layer.ofEnvFile e path = .ok found) {made : Made} :
    make e path given = .ok made ↔ made.given = given.above ((ofVariables e.vars).above found) ∧
      ofLayer e.surroundings made.given = .ok made.settings := by
  obtain ⟨st, all⟩ := made
  simp only [make, hfound, bind, Except.bind]
  constructor
  · intro h
    split at h
    · cases h
      exact ⟨rfl, ‹_›⟩
    · cases h
  · rintro ⟨rfl, h⟩
    simp only [h]

theorem fromGiven_eq_ok_iff {given : Layer} {st : Settings}
    (husual : Layer.ofEnvFile e envFileName = .ok usual) :
    fromGiven e given = .ok st ↔
      ofLayer e.surroundings (given.above ((ofVariables e.vars).above usual)) = .ok st := by
  simp only [fromGiven, make, husual, bind, Except.bind]
  split <;> simp_all [Except.map]

theorem madeFromFile_given {path : Disk.Path} {made : Made} (h : madeFromFile e path = .ok made)
    (husual : Layer.ofEnvFile e envFileName = .ok usual) :
    made.given = ofConfigRead e usual path ∧
      ofLayer e.surroundings made.given = .ok made.settings := by
  unfold madeFromFile at h
  split at h
  · cases h
  · unfold ofConfigRead ofConfig
    cases hconfig : Data.readMapping e.tree path with
    | error f => simp [hconfig] at h
    | ok config =>
      simp only [hconfig] at h
      split at h
      · cases h
      · cases h
      · rename_i entries _ hentries
        simpa only [hentries, Option.elim_some] using (make_eq_ok_iff husual).mp h

theorem madeFromFile_ne_missing {path : Disk.Path} (hexists : e.tree.pathExists path = true)
    (husual : Layer.ofEnvFile e envFileName = .ok usual) (text : String) :
    madeFromFile e path ≠ .error (.missingFile text) := by
  intro h
  simp only [madeFromFile, hexists, Bool.not_true, Bool.false_eq_true, if_false] at h
  split at h
  · cases h
  · split at h
    · cases h
    · cases h
    · simp only [make, husual, bind, Except.bind] at h
      split at h <;> cases h

/-- What was settled reads as what was given. -/
theorem Made.settled_alike {made : Made} {s : Surroundings}
    (h : ofLayer s made.given = .ok made.settings) : Alike s made.settled made.given := by
  intro f
  have hread := settle_of_ofLayer h f
  unfold Made.settled
  cases hg : made.given f with
  | none => exact .inl rfl
  | some g =>
    rw [hg] at hread
    exact .inr ⟨_, g, _, rfl, rfl, (f.reader_steady s).settle_shown hread, hread⟩

theorem ofConfigsRead_cons (path : Disk.Path) (rest : List Disk.Path) :
    ofConfigsRead e usual (path :: rest) =
      (ofConfigsRead e usual rest).above (ofConfigRead e usual path) := by
  simp only [ofConfigsRead, List.reverse_cons, List.map_append, List.map_cons, List.map_nil,
    first_append, first, above_empty]

theorem exists_made_of_fileLayer {given L : Layer}
    (hexist : ∀ path ∈ files, e.tree.pathExists path = true)
    (husual : Layer.ofEnvFile e envFileName = .ok usual) (h : fileLayer e given files = .ok L) :
    ∀ path ∈ files, ∃ made, madeFromFile e path = .ok made := by
  induction files generalizing given with
  | nil => exact fun _ hpath => nomatch hpath
  | cons path rest ih =>
    obtain ⟨hexists, hexist⟩ := List.forall_mem_cons.mp hexist
    unfold fileLayer at h
    split at h
    · next made hmade => exact List.forall_mem_cons.mpr ⟨⟨made, hmade⟩, ih hexist h⟩
    · next text hmissing => exact absurd hmissing (madeFromFile_ne_missing hexists husual text)
    · cases h

theorem exists_made_of_fromSources {st : Settings}
    (hexist : ∀ path ∈ files, e.tree.pathExists path = true)
    (husual : Layer.ofEnvFile e envFileName = .ok usual)
    (h : fromSources e files envFile arguments = .ok st) :
    ∀ path ∈ files, ∃ made, madeFromFile e path = .ok made := by
  cases hL : fileLayer e .empty files with
  | ok L => exact exists_made_of_fileLayer hexist husual hL
  | error f => simp [fromSources, hL, bind, Except.bind] at h

theorem fileLayer_alike (given : Layer)
    (hfiles : ∀ path ∈ files, ∃ made, madeFromFile e path = .ok made)
    (husual : Layer.ofEnvFile e envFileName = .ok usual) :
    ∃ L, fileLayer e given files = .ok L ∧
      Alike e.surroundings L ((ofConfigsRead e usual files).above given) := by
  induction files generalizing given with
  | nil => exact ⟨given, rfl, .refl given⟩
  | cons path rest ih =>
    obtain ⟨made, hmade⟩ := hfiles path (List.mem_cons_self ..)
    obtain ⟨hgiven, hread⟩ := madeFromFile_given hmade husual
    obtain ⟨L, hL, halike⟩ := ih (made.settled.above given)
      fun p hp => hfiles p (List.mem_cons_of_mem _ hp)
    have hsettled := hgiven ▸ Made.settled_alike hread
    refine ⟨L, by simp only [fileLayer, hmade, hL], halike.trans ?_⟩
    rw [ofConfigsRead_cons, above_assoc]
    exact (Alike.refl _).above (hsettled.above (.refl given))

/-- Arguments come before settings, which stand for whatever they were read from. -/
theorem override_eq_ok_iff {st st₁ : Settings} {L : Layer}
    (husual : Layer.ofEnvFile e envFileName = .ok usual)
    (hst₁ : ofLayer e.surroundings L = .ok st₁) :
    override e st₁ arguments = .ok st ↔
      ofLayer e.surroundings ((ofArguments arguments).above L) = .ok st := by
  have hsettled : ofLayer e.surroundings
      (((ofArguments arguments).above st₁.toLayer).above ((ofVariables e.vars).above usual)) =
        ofLayer e.surroundings ((ofArguments arguments).above L) := by
    refine ofLayer_congr fun f => ?_
    rw [above_assoc]
    cases hf : ofArguments arguments f with
    | some g => exact .inl ((above_of_some hf).trans (above_of_some hf).symm)
    | none =>
      have hread := settle_of_ofLayer hst₁ f
      rw [above_of_none hf, above_of_none hf, above_of_some (g := st₁.content f) rfl]
      exact .inr ⟨_, (f.reader_steady _).settle_shown hread, hread⟩
  unfold override
  dsimp only
  split
  · next hnone =>
    have hempty : ofArguments arguments = .empty := congrArg Layer.ofEntries hnone
    rw [hempty, empty_above, hst₁, Except.ok.injEq, Except.ok.injEq]
  · rw [← hsettled]
    exact fromGiven_eq_ok_iff husual

theorem fromSources_eq_ok_iff {st : Settings}
    (hfiles : ∀ path ∈ files, ∃ made, madeFromFile e path = .ok made)
    (husual : Layer.ofEnvFile e envFileName = .ok usual)
    (hnamed : Layer.ofEnvFile e (variablesFile envFile) = .ok named) :
    fromSources e files envFile arguments = .ok st ↔
      ∃ st₁, ofLayer e.surroundings (heeded e usual files named []) = .ok st₁ ∧
        ofLayer e.surroundings (heeded e usual files named arguments) = .ok st := by
  obtain ⟨L, hL, halike⟩ := fileLayer_alike .empty hfiles husual
  rw [above_empty] at halike
  have hmade : ofLayer e.surroundings (L.above ((ofVariables e.vars).above named)) =
      ofLayer e.surroundings (heeded e usual files named []) :=
    (halike.above (.refl _)).ofLayer_eq
  have hsources : fromSources e files envFile arguments =
      (make e (variablesFile envFile) L).bind fun made => override e made.settings arguments := by
    rw [fromSources, hL]
    rfl
  rw [hsources, ← hmade]
  constructor
  · intro h
    cases hmake : make e (variablesFile envFile) L with
    | error f => simp [hmake, Except.bind] at h
    | ok made =>
      obtain ⟨hgiven, hread⟩ := (make_eq_ok_iff hnamed).mp hmake
      rw [hgiven] at hread
      rw [hmake] at h
      exact ⟨made.settings, hread, (override_eq_ok_iff husual (hmade ▸ hread)).mp h⟩
  · rintro ⟨st₁, hread, h⟩
    have hmake := (make_eq_ok_iff hnamed).mpr (⟨rfl, hread⟩ : (Made.mk st₁ _).given = _ ∧ _)
    rw [hmake]
    exact (override_eq_ok_iff husual (hmade ▸ hread)).mpr h

/-- Where variables say nothing, files say what they say by themselves. -/
theorem ofConfigsRead_of_none {f : Field} (h : ((ofVariables e.vars).above usual) f = none)
    (files : List Disk.Path) :
    ofConfigsRead e usual files f = first (files.reverse.map (ofConfig e)) f := by
  unfold ofConfigsRead
  induction files.reverse with
  | nil => simp only [List.map_nil]
  | cons path rest ih =>
    simp only [List.map_cons, first, ofConfigRead, above_assoc]
    cases hpath : ofConfig e path f with
    | some g => rw [above_of_some hpath, above_of_some hpath]
    | none => rw [above_of_none hpath, above_of_none hpath, ← above_assoc, above_of_none h, ih]

/-- A variable that the last file does not answer is heeded next after the arguments. -/
theorem heeded_of_variable {f : Field} {last : Disk.Path} {g : Given}
    (hargument : ofArguments arguments f = none) (hlast : ofConfig e last f = none)
    (hvariable : ((ofVariables e.vars).above usual) f = some g) :
    heeded e usual (files ++ [last]) named arguments f = some g := by
  rw [heeded, above_of_none hargument, ofConfigsRead, List.reverse_append, List.reverse_singleton,
    List.singleton_append, List.map_cons, first, above_assoc, ofConfigRead, above_assoc,
    above_of_none hlast, above_of_some hvariable]

/-- Where no variable comes up early, the sources are heeded in their documented order. -/
theorem heeded_eq_documented {f : Field}
    (h : ofArguments arguments f = none → ∀ last ∈ files.getLast?, ofConfig e last f = none →
      ((ofVariables e.vars).above usual) f = none) :
    heeded e usual files named arguments f = documented e files named arguments f := by
  rw [heeded, documented, first, first_append]
  simp only [first, above_empty]
  cases hargument : ofArguments arguments f with
  | some g => rw [above_of_some hargument, above_of_some hargument]
  | none =>
    rw [above_of_none hargument, above_of_none hargument]
    cases files using List.reverseRecOn with
    | nil => simp only [ofConfigsRead, List.reverse_nil, List.map_nil]
    | append_singleton init last =>
      cases hlast : ofConfig e last f with
      | some g =>
        simp only [ofConfigsRead, List.reverse_append, List.reverse_singleton,
          List.singleton_append, List.map_cons, first, above_assoc, ofConfigRead]
        rw [above_of_some hlast, above_of_some hlast]
      | none =>
        have hnone := h hargument last (by simp) hlast
        simp only [above, ofConfigsRead_of_none hnone]

/-- At no field do the variables get ahead of a source that has something else to say: whatever
neither the arguments nor the last file give, a variable gives as the documented order has it. -/
def Undisturbed (e : Environment) (usual : Layer) (files : List Disk.Path) (named : Layer)
    (arguments : List (String × Given)) : Prop :=
  ∀ f, ofArguments arguments f = none → ∀ last ∈ files.getLast?, ofConfig e last f = none →
    ∀ g, ((ofVariables e.vars).above usual) f = some g →
      (f.reader e.surroundings).settle (some g) =
        (f.reader e.surroundings).settle (documented e files named arguments f)

/-- The sources make the settings of the documented order exactly if no field is disturbed. -/
theorem ofLayer_heeded_eq_iff {st : Settings}
    (hdocumented : ofLayer e.surroundings (documented e files named arguments) = .ok st) :
    ofLayer e.surroundings (heeded e usual files named arguments) = .ok st ↔
      Undisturbed e usual files named arguments := by
  have hread := settle_of_ofLayer hdocumented
  constructor
  · intro hst f hargument last hlast hconfig g hg
    obtain ⟨init, rfl⟩ := List.getLast?_eq_some_iff.mp hlast
    have hheeded := settle_of_ofLayer hst f
    rw [heeded_of_variable hargument hconfig hg] at hheeded
    rw [hheeded, hread f]
  · intro hundisturbed
    refine (ofLayer_congr fun f => ?_).trans hdocumented
    by_cases hdisturbed : ofArguments arguments f = none ∧ ∃ last ∈ files.getLast?,
      ofConfig e last f = none ∧ ((ofVariables e.vars).above usual) f ≠ none
    · obtain ⟨hargument, last, hlast, hconfig, hvariable⟩ := hdisturbed
      obtain ⟨g, hg⟩ := Option.ne_none_iff_exists'.mp hvariable
      have hsame := hundisturbed f hargument last hlast hconfig g hg
      obtain ⟨init, rfl⟩ := List.getLast?_eq_some_iff.mp hlast
      rw [heeded_of_variable hargument hconfig hg, hsame]
      exact .inr ⟨_, hread f, hread f⟩
    · refine .inl (heeded_eq_documented fun hargument last hlast hconfig => ?_)
      by_contra hvariable
      exact hdisturbed ⟨hargument, last, hlast, hconfig, hvariable⟩

/-- When all configuration files exist, and the sources in their documented order make settings,
then exactly these come out of all sources if no field is disturbed and the sources make settings
without the arguments too. -/
theorem sources_win_in_documented_order_iff {st : Settings}
    (hexist : ∀ path ∈ files, e.tree.pathExists path = true)
    (husual : Layer.ofEnvFile e envFileName = .ok usual)
    (hnamed : Layer.ofEnvFile e (variablesFile envFile) = .ok named)
    (hdocumented : ofLayer e.surroundings (documented e files named arguments) = .ok st) :
    fromSources e files envFile arguments = .ok st ↔
      Undisturbed e usual files named arguments ∧
        ∃ st₁, fromSources e files envFile [] = .ok st₁ := by
  constructor
  · intro h
    have hfiles := exists_made_of_fromSources hexist husual h
    obtain ⟨st₁, hst₁, hst⟩ := (fromSources_eq_ok_iff hfiles husual hnamed).mp h
    exact ⟨(ofLayer_heeded_eq_iff hdocumented).mp hst, st₁,
      (fromSources_eq_ok_iff hfiles husual hnamed).mpr ⟨st₁, hst₁, hst₁⟩⟩
  · rintro ⟨hundisturbed, st₁, h⟩
    have hfiles := exists_made_of_fromSources hexist husual h
    obtain ⟨st₂, hst₂, -⟩ := (fromSources_eq_ok_iff hfiles husual hnamed).mp h
    exact (fromSources_eq_ok_iff hfiles husual hnamed).mpr
      ⟨st₂, hst₂, (ofLayer_heeded_eq_iff hdocumented).mpr hundisturbed⟩

end Sources

/-- Two files of settings in the root directory, with a variable around them. -/
def twoFiles (first second : String) : Environment where
  tree := (Disk.Tree.withFile {} ⟨true, ["a.json"]⟩ first.toUTF8).withFile ⟨true, ["b.json"]⟩
    second.toUTF8
  vars := [("VNSCRIPT_SAVE_SLOT_COUNT", "5")]

def bothFiles : List Disk.Path := [⟨true, ["a.json"]⟩, ⟨true, ["b.json"]⟩]

def slotFile (count : Nat) : String := "\x7b\"save_slot_count\": " ++ toString count ++ "\x7d"

def emptyFile : String := "\x7b\x7d"

theorem ofEnvFile_of_absent {e : Environment} {path : Disk.Path}
    (h : e.tree.isFile (e.surroundings.fillHome path) = false) :
    Layer.ofEnvFile e path = .ok .empty := by
  simp [Layer.ofEnvFile, h]

theorem exists_of_isOk {ε α : Type} {x : Except ε α} (h : x.isOk = true) : ∃ a, x = .ok a := by
  cases x with
  | ok a => exact ⟨a, rfl⟩
  | error f => cases h

theorem sources_win_in_documented_order_for_two_files :
    (∀ path ∈ bothFiles,
        (twoFiles (slotFile 2) (slotFile 3)).tree.pathExists path = true) ∧
      Layer.ofEnvFile (twoFiles (slotFile 2) (slotFile 3)) envFileName = .ok .empty ∧
      ∃ st, ofLayer (twoFiles (slotFile 2) (slotFile 3)).surroundings
          (Layer.documented (twoFiles (slotFile 2) (slotFile 3)) bothFiles .empty []) = .ok st ∧
        (fromSources (twoFiles (slotFile 2) (slotFile 3)) bothFiles none [] = .ok st ↔
          Undisturbed (twoFiles (slotFile 2) (slotFile 3)) .empty bothFiles .empty [] ∧
            ∃ st₁,
              fromSources (twoFiles (slotFile 2) (slotFile 3)) bothFiles none [] = .ok st₁) := by
  have hexist : ∀ path ∈ bothFiles,
      (twoFiles (slotFile 2) (slotFile 3)).tree.pathExists path = true := by
    decide +kernel
  have husual : Layer.ofEnvFile (twoFiles (slotFile 2) (slotFile 3)) envFileName = .ok .empty :=
    ofEnvFile_of_absent (by decide +kernel)
  obtain ⟨st, hst⟩ : ∃ st, ofLayer (twoFiles (slotFile 2) (slotFile 3)).surroundings
      (Layer.documented (twoFiles (slotFile 2) (slotFile 3)) bothFiles .empty []) = .ok st :=
    exists_of_isOk (by decide +kernel)
  exact ⟨hexist, husual, st, hst,
    sources_win_in_documented_order_iff hexist husual husual hst⟩

/-- The last file says nothing; still the variable that was read with it wins over the file before
it. -/
theorem a_variable_wins_over_an_earlier_file :
    (∀ path ∈ bothFiles, (madeFromFile (twoFiles (slotFile 2) emptyFile) path).isOk = true) ∧
      Layer.ofEnvFile (twoFiles (slotFile 2) emptyFile) envFileName = .ok .empty ∧
      (ofLayer (twoFiles (slotFile 2) emptyFile).surroundings
          (Layer.documented (twoFiles (slotFile 2) emptyFile) bothFiles .empty [])).toOption.map
        (·.saveSlotCount.val) = some 2 ∧
      (fromSources (twoFiles (slotFile 2) emptyFile) bothFiles none []).toOption.map
        (·.saveSlotCount.val) = some 5 :=
  ⟨by decide +kernel, ofEnvFile_of_absent (by decide +kernel), by decide +kernel, by decide +kernel⟩

end VisualNovel.Settings
