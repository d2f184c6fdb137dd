import VisualNovel.Settings.Basic
import VisualNovel.Proofs.Text.Casing

/-!
What the reading of settings makes of each field by itself. A field has a default, a reader and a
form in which its value is shown. What it shows reads back as the same value, so a value that has
been settled once may be read again; the settings of a layer show at each field what is given
there, and nothing else about the layer matters.
-/
namespace VisualNovel

open Disk

namespace Disk.Path

theorem goUp_of_forall_ne (kept rest : List String) (h : ∀ part ∈ rest, part ≠ "..") :
    goUp kept rest = kept.reverse ++ rest := by
  induction rest generalizing kept with
  | nil => simp [goUp]
  | cons part rest ih =>
    have hpart : part ≠ ".." := h part (List.mem_cons_self ..)
    have hrest := ih (part :: kept) fun q hq => h q (List.mem_cons_of_mem _ hq)
    simp [goUp, hpart, hrest]

theorem ne_of_mem_goUp (kept rest : List String) (h : ∀ part ∈ kept, part ≠ "..") :
    ∀ part ∈ goUp kept rest, part ≠ ".." := by
  induction rest generalizing kept with
  | nil => simpa [goUp] using h
  | cons part rest ih =>
    rw [goUp]
    split
    · exact ih kept.tail fun q hq => h q (List.mem_of_mem_tail hq)
    · rename_i hpart
      refine ih (part :: kept) fun q hq => ?_
      obtain rfl | hq := List.mem_cons.mp hq
      · simpa using hpart
      · exact h q hq

theorem resolve_resolve (cwd other p : Path) :
    resolve cwd (resolve other p) = resolve other p := by
  have hclean := ne_of_mem_goUp [] (other.join p).parts (by simp)
  have habsolute : cwd.join (resolve other p) = resolve other p := rfl
  rw [resolve, habsolute, resolve, goUp_of_forall_ne [] _ hclean, List.reverse_nil, List.nil_append]

end Disk.Path

namespace Settings

structure Reader where
  Value : Type
  default : Value
  read? : Given → Option Value
  shown : Value → Given

namespace Reader

/-- What the field shows once something, or nothing, is given for it. -/
def settle (r : Reader) : Option Given → Option Given
  | none => some (r.shown r.default)
  | some g => (r.read? g).map r.shown

/-- The default passes its own check, and what the field shows reads back. -/
structure Steady (r : Reader) : Prop where
  read_default : r.read? (r.shown r.default) = some r.default
  read_shown {g : Given} {v : r.Value} : r.read? g = some v → r.read? (r.shown v) = some v

theorem steady_mk {α : Type} {default : α} {read? : Given → Option α} {shown : α → Given}
    (hdefault : read? (shown default) = some default)
    (hshown : ∀ {g v}, read? g = some v → read? (shown v) = some v) :
    Steady ⟨α, default, read?, shown⟩ :=
  ⟨hdefault, hshown⟩

variable {r : Reader} {field : Field} {L L' : Layer}

theorem Steady.settle_shown (hr : r.Steady) {o : Option Given} {c : Given}
    (h : r.settle o = some c) : r.settle (some c) = some c := by
  cases o with
  | none =>
    obtain rfl := Option.some.inj h
    simp [settle, hr.read_default]
  | some g =>
    obtain ⟨v, hv, rfl⟩ := Option.map_eq_some_iff.mp h
    simp [settle, hr.read_shown hv]

theorem settle_of_check {v : r.Value} (h : L.check field r.default r.read? = .good v) :
    r.settle (L field) = some (r.shown v) := by
  unfold Layer.check at h
  cases hg : L field with
  | none => simp_all [settle]
  | some g =>
    cases hread : r.read? g with
    | none => simp [hg, hread] at h
    | some w => simp_all [settle]

theorem Steady.check_of_settle (hr : r.Steady) {c : Given} (h : r.settle (L field) = some c) :
    ∃ v, r.read? c = some v ∧ L.check field r.default r.read? = .good v := by
  unfold Layer.check
  cases hg : L field with
  | none =>
    rw [hg] at h
    obtain rfl := Option.some.inj h
    exact ⟨r.default, hr.read_default, rfl⟩
  | some g =>
    rw [hg] at h
    obtain ⟨v, hv, rfl⟩ := Option.map_eq_some_iff.mp h
    exact ⟨v, hr.read_shown hv, by simp [hv]⟩

/-- Whatever is given, only what the field shows matters. -/
theorem Steady.check_congr (hr : r.Steady) {c : Given} (h : r.settle (L field) = some c)
    (h' : r.settle (L' field) = some c) :
    L.check field r.default r.read? = L'.check field r.default r.read? := by
  obtain ⟨v, hv, hcheck⟩ := hr.check_of_settle h
  obtain ⟨w, hw, hcheck'⟩ := hr.check_of_settle h'
  obtain rfl := Option.some.inj (hv.symm.trans hw)
  rw [hcheck, hcheck']

end Reader

section Readers

variable (s : Surroundings)

def showCount (n : Nat) : Given := .plain (.int n)

def Field.reader : Field → Reader
  | startNode =>
      ⟨NonemptyText, ⟨"start", (by decide : ¬ "start" = "")⟩, nonempty?,
        fun t => .plain (.text t.val)⟩
  | defaultBackground =>
      ⟨Option String, some "Black", optional? text?, fun t => .plain (t.elim .null .text)⟩
  | assetManifest => ⟨Option Path, none, optional? (path? s), optionalPath⟩
  | revealInterval => ⟨_, ⟨30, Nat.succ_pos 29⟩, atLeast? 1, fun n => showCount n.val⟩
  | fastRevealInterval => ⟨_, ⟨2, Nat.succ_pos 1⟩, atLeast? 1, fun n => showCount n.val⟩
  | fastForwardDelay => ⟨Nat, 100, count?, showCount⟩
  | autoPerChar => ⟨Nat, 50, count?, showCount⟩
  | autoMinDelay => ⟨Nat, 1000, count?, showCount⟩
  | autoMaxDelay => ⟨Nat, 4000, count?, showCount⟩
  | endGrace => ⟨Nat, 3000, count?, showCount⟩
  | saveFile => ⟨Path, s.resolve (defaultSaveFile s), path? s, .path⟩
  | saveKey =>
      ⟨NonemptyText, ⟨"galgame_saves_v1", (by decide : ¬ "galgame_saves_v1" = "")⟩, nonempty?,
        fun t => .plain (.text t.val)⟩
  | saveSlotCount => ⟨_, ⟨4, Nat.succ_pos 3⟩, atLeast? 1, fun n => showCount n.val⟩
  | savePreviewLength => ⟨Nat, 20, count?, showCount⟩
  | debug => ⟨Bool, false, flag?, fun b => .plain (.bool b)⟩
  | logLevel => ⟨LogLevel, .warning, logLevel?, fun l => .plain (.text l.name)⟩
  | logFormat => ⟨String, "console", logFormat?, fun t => .plain (.text t)⟩
  | logFile => ⟨Option Path, none, optional? (path? s), optionalPath⟩

theorem text?_text (t : String) : text? (.plain (.text t)) = some t := rfl

theorem nonempty?_text (t : NonemptyText) : nonempty? (.plain (.text t.val)) = some t := by
  simp [nonempty?, text?_text, t.property]

theorem atLeast?_count {least : Nat} (n : {n : Nat // least ≤ n}) :
    atLeast? least (showCount n.val) = some n := by
  have hwhole : Data.Lenient.whole? (.int n.val) = some (.ofNat n.val) := rfl
  simp [atLeast?, showCount, hwhole, n.property]

theorem count?_count (n : Nat) : count? (showCount n) = some n := by
  rw [count?, atLeast?_count ⟨n, n.zero_le⟩, Option.map_some]

theorem path?_path {g : Given} {p : Path} (h : path? s g = some p) :
    path? s (.path p) = some p := by
  have hresolved : ∃ q, p = s.resolve q := by
    unfold path? at h
    split at h
    · simp only [Option.ite_none_left_eq_some] at h
      exact ⟨_, (Option.some.inj h.2).symm⟩
    · exact ⟨_, (Option.some.inj h).symm⟩
    · contradiction
  obtain ⟨q, rfl⟩ := hresolved
  exact congrArg some (Path.resolve_resolve ..)

theorem optional?_path {g : Given} {p : Option Path} (h : optional? (path? s) g = some p) :
    optional? (path? s) (optionalPath p) = some p := by
  cases p with
  | none => rfl
  | some p =>
    have hpath : path? s g = some p := by
      unfold optional? at h
      split at h
      · cases h
      · obtain ⟨q, hq, hp⟩ := Option.map_eq_some_iff.mp h
        rw [hq, Option.some.inj hp]
    simp [optional?, optionalPath, path?_path s hpath]

theorem optional?_text (t : Option String) :
    optional? text? (.plain (t.elim .null .text)) = some t := by
  cases t <;> rfl

theorem logLevel?_name (l : LogLevel) : logLevel? (.plain (.text l.name)) = some l := by
  cases l <;> rfl

theorem logFormats_plain : ∀ word ∈ logFormats, Text.IsPlainWord word := by
  simp [logFormats, Text.IsPlainWord]

theorem logFormat?_console : logFormat? (.plain (.text "console")) = some "console" := rfl

theorem logFormat?_text {g : Given} {t : String} (h : logFormat? g = some t) :
    logFormat? (.plain (.text t)) = some t := by
  obtain ⟨hlower, hformat⟩ := Option.filter_eq_some_iff.mp h
  obtain ⟨written, -, rfl⟩ := Option.map_eq_some_iff.mp hlower
  have hword := logFormats_plain _ (List.contains_iff_mem.mp hformat)
  have hsame := Text.lower_lower_of_foldEach hword rfl
  rw [logFormat?, text?_text, Option.map_some, hsame, Option.filter_eq_some_iff]
  exact ⟨rfl, hformat⟩

theorem Field.reader_steady (f : Field) : (f.reader s).Steady := by
  cases f
  case startNode | saveKey => exact Reader.steady_mk rfl fun _ => nonempty?_text _
  case defaultBackground => exact Reader.steady_mk rfl fun _ => optional?_text _
  case assetManifest | logFile => exact Reader.steady_mk rfl (optional?_path s)
  case revealInterval | fastRevealInterval | saveSlotCount =>
    exact Reader.steady_mk rfl fun _ => atLeast?_count _
  case fastForwardDelay | autoPerChar | autoMinDelay | autoMaxDelay | endGrace
      | savePreviewLength =>
    exact Reader.steady_mk rfl fun _ => count?_count _
  case saveFile =>
    exact Reader.steady_mk (congrArg some (Path.resolve_resolve ..)) (path?_path s)
  case debug => exact Reader.steady_mk rfl fun _ => rfl
  case logLevel => exact Reader.steady_mk (logLevel?_name _) fun _ => logLevel?_name _
  case logFormat => exact Reader.steady_mk logFormat?_console logFormat?_text

/-- A path that can be read does not start in the home of somebody else. -/
theorem path?_at_home {g : Given} {p : Path} (h : path? s g = some p) :
    g.namesForeignHome s = false := by
  unfold path? at h
  split at h
  · simp only [Option.ite_none_left_eq_some, Bool.or_eq_true, not_or, Bool.not_eq_true] at h
    exact h.1.2
  · rfl
  · contradiction

theorem Field.settled_at_home {f : Field} (hf : f ∈ Field.paths) {o : Option Given} {c : Given}
    (h : (f.reader s).settle o = some c) : o.any (·.namesForeignHome s) = false := by
  have hoptional {g : Given} {p : Option Path} (h : optional? (path? s) g = some p) :
      g.namesForeignHome s = false := by
    unfold optional? at h
    split at h
    · rfl
    · obtain ⟨q, hq, -⟩ := Option.map_eq_some_iff.mp h
      exact path?_at_home s hq
  cases o with
  | none => rfl
  | some g =>
    obtain ⟨v, hv, -⟩ := Option.map_eq_some_iff.mp h
    simp only [Field.paths, List.mem_cons, List.not_mem_nil, or_false] at hf
    obtain rfl | rfl | rfl := hf
    · exact hoptional hv
    · exact path?_at_home s hv
    · exact hoptional hv

end Readers

namespace Checked

variable {α β : Type}

theorem apply_eq_good {c : Checked (α → β)} {x : Checked α} {b : β} :
    c.apply x = .good b ↔ ∃ f a, c = .good f ∧ x = .good a ∧ f a = b := by
  cases c <;> cases x <;> simp [apply, map]

end Checked

theorem Fields.settle_of_check {s : Surroundings} {L : Layer} {fields : Fields}
    (h : Fields.check s L = .good fields) (hbounds : fields.autoMinDelay ≤ fields.autoMaxDelay)
    (f : Field) : (f.reader s).settle (L f) = some (content ⟨fields, hbounds⟩ f) := by
  obtain ⟨_, _, h₁₇, hlogFile, rfl⟩ := Checked.apply_eq_good.mp h
  obtain ⟨_, _, h₁₆, hlogFormat, rfl⟩ := Checked.apply_eq_good.mp h₁₇
  obtain ⟨_, _, h₁₅, hlogLevel, rfl⟩ := Checked.apply_eq_good.mp h₁₆
  obtain ⟨_, _, h₁₄, hdebug, rfl⟩ := Checked.apply_eq_good.mp h₁₅
  obtain ⟨_, _, h₁₃, hsavePreviewLength, rfl⟩ := Checked.apply_eq_good.mp h₁₄
  obtain ⟨_, _, h₁₂, hsaveSlotCount, rfl⟩ := Checked.apply_eq_good.mp h₁₃
  obtain ⟨_, _, h₁₁, hsaveKey, rfl⟩ := Checked.apply_eq_good.mp h₁₂
  obtain ⟨_, _, h₁₀, hsaveFile, rfl⟩ := Checked.apply_eq_good.mp h₁₁
  obtain ⟨_, _, h₉, hendGrace, rfl⟩ := Checked.apply_eq_good.mp h₁₀
  obtain ⟨_, _, h₈, hautoMaxDelay, rfl⟩ := Checked.apply_eq_good.mp h₉
  obtain ⟨_, _, h₇, hautoMinDelay, rfl⟩ := Checked.apply_eq_good.mp h₈
  obtain ⟨_, _, h₆, hautoPerChar, rfl⟩ := Checked.apply_eq_good.mp h₇
  obtain ⟨_, _, h₅, hfastForwardDelay, rfl⟩ := Checked.apply_eq_good.mp h₆
  obtain ⟨_, _, h₄, hfastRevealInterval, rfl⟩ := Checked.apply_eq_good.mp h₅
  obtain ⟨_, _, h₃, hrevealInterval, rfl⟩ := Checked.apply_eq_good.mp h₄
  obtain ⟨_, _, h₂, hassetManifest, rfl⟩ := Checked.apply_eq_good.mp h₃
  obtain ⟨_, _, h₁, hdefaultBackground, rfl⟩ := Checked.apply_eq_good.mp h₂
  obtain ⟨_, _, h₀, hstartNode, rfl⟩ := Checked.apply_eq_good.mp h₁
  cases h₀
  cases f
  case startNode => exact Reader.settle_of_check hstartNode
  case defaultBackground => exact Reader.settle_of_check hdefaultBackground
  case assetManifest => exact Reader.settle_of_check hassetManifest
  case revealInterval => exact Reader.settle_of_check hrevealInterval
  case fastRevealInterval => exact Reader.settle_of_check hfastRevealInterval
  case fastForwardDelay => exact Reader.settle_of_check hfastForwardDelay
  case autoPerChar => exact Reader.settle_of_check hautoPerChar
  case autoMinDelay => exact Reader.settle_of_check hautoMinDelay
  case autoMaxDelay => exact Reader.settle_of_check hautoMaxDelay
  case endGrace => exact Reader.settle_of_check hendGrace
  case saveFile => exact Reader.settle_of_check hsaveFile
  case saveKey => exact Reader.settle_of_check hsaveKey
  case saveSlotCount => exact Reader.settle_of_check hsaveSlotCount
  case savePreviewLength => exact Reader.settle_of_check hsavePreviewLength
  case debug => exact Reader.settle_of_check hdebug
  case logLevel => exact Reader.settle_of_check hlogLevel
  case logFormat => exact Reader.settle_of_check hlogFormat
  case logFile => exact Reader.settle_of_check hlogFile

/-- Layers that give the same readings at each field make the same fields. -/
theorem Fields.check_congr {s : Surroundings} {L L' : Layer}
    (h : ∀ f, L f = L' f ∨
      ∃ c, (f.reader s).settle (L f) = some c ∧ (f.reader s).settle (L' f) = some c) :
    Fields.check s L = Fields.check s L' := by
  have hcheck (f : Field) :
      L.check f (f.reader s).default (f.reader s).read? =
        L'.check f (f.reader s).default (f.reader s).read? := by
    obtain hsame | ⟨c, hc, hc'⟩ := h f
    · rw [Layer.check, Layer.check, hsame]
    · exact (f.reader_steady s).check_congr hc hc'
  unfold Fields.check
  iterate 18 refine congrArg₂ Checked.apply ?_ (hcheck _)
  rfl

theorem ofLayer_congr {s : Surroundings} {L L' : Layer}
    (h : ∀ f, L f = L' f ∨
      ∃ c, (f.reader s).settle (L f) = some c ∧ (f.reader s).settle (L' f) = some c) :
    ofLayer s L = ofLayer s L' := by
  have hhomes : (Field.paths.any fun f => (L f).any (·.namesForeignHome s)) =
      Field.paths.any fun f => (L' f).any (·.namesForeignHome s) := by
    rw [Bool.eq_iff_iff, List.any_eq_true, List.any_eq_true]
    refine exists_congr fun f => and_congr_right fun hf => ?_
    obtain hsame | ⟨c, hc, hc'⟩ := h f
    · rw [hsame]
    · rw [Field.settled_at_home s hf hc, Field.settled_at_home s hf hc']
  simp only [ofLayer, hhomes, Fields.check_congr h]

theorem settle_of_ofLayer {s : Surroundings} {L : Layer} {st : Settings} (h : ofLayer s L = .ok st)
    (f : Field) : (f.reader s).settle (L f) = some (st.content f) := by
  unfold ofLayer at h
  split at h
  · cases h
  · split at h
    · cases h
    · rename_i fields hfields
      split at h
      · rename_i hbounds
        cases h
        exact Fields.settle_of_check hfields hbounds f
      · cases h

end Settings

end VisualNovel
