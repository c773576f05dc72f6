import LosslessTree.Config.Validate
import LosslessTree.Proofs.Bytes.Utf8
import Mathlib.Data.List.DropRight
import Mathlib.Data.List.Induction

/-! The fields of a configuration by their keys. Each is read, set, trimmed and checked by itself, so a list
of settings is known by the last setting of each key. -/
namespace LosslessTree

namespace Text

/-- White space is only taken off once. -/
theorem trimSpace_trimSpace (text : Bytes) : trimSpace (trimSpace text) = trimSpace text := by
  let isSpace (g : Glyph) : Bool := Unicode.isSpace g.point
  let front := (Utf8.decode text).dropWhile isSpace
  let kept := (front.reverse.dropWhile isSpace).reverse
  obtain ⟨lead, hlead⟩ : ∃ lead, lead ++ front = Utf8.decode text := List.dropWhile_suffix isSpace
  have hkept : kept <+: front := by
    rw [← List.reverse_suffix, List.reverse_reverse]
    exact List.dropWhile_suffix isSpace
  obtain ⟨tail, htail⟩ := hkept
  have hfront := (Utf8.decode_split hlead.symm).2
  have hread : Utf8.decode (Utf8.bytes kept) = kept := (Utf8.decode_split (hfront.trans htail.symm)).1
  have hstart : kept.dropWhile isSpace = kept := by
    rw [List.dropWhile_eq_self_iff]
    intro hpos
    have hlen : 0 < front.length := by
      rw [← htail, List.length_append]
      omega
    have hhead : kept[0] = front[0] := by simp [← htail, hpos]
    rw [hhead]
    exact List.dropWhile_get_zero_not _ _ _
  have hend : kept.reverse.dropWhile isSpace = kept.reverse := by
    rw [List.reverse_reverse, List.dropWhile_idempotent]
  change Utf8.bytes (((Utf8.decode (Utf8.bytes kept)).dropWhile isSpace).reverse.dropWhile isSpace).reverse =
    Utf8.bytes kept
  rw [hread, hstart, hend, List.reverse_reverse]

end Text

/-- The keys of a configuration, one for each field. -/
inductive Config.Key where
  | language | format | color | logLevel | jobs | sharedCache | tables | offsets | maxDepth
  | includes | excludes | followSymlinks
  deriving DecidableEq, Repr

open Config (Key)

/-- The name of a key in files and in what is said about it. -/
def Config.Key.name : Key → String
  | .language => "language"
  | .format => "format"
  | .color => "color"
  | .logLevel => "log_level"
  | .jobs => "jobs"
  | .sharedCache => "cache.shared"
  | .tables => "markdown.gfm"
  | .offsets => "output.offsets"
  | .maxDepth => "output.max_depth"
  | .includes => "files.include"
  | .excludes => "files.exclude"
  | .followSymlinks => "files.follow_symlinks"

/-- Whether a key is named, or one of the items of its value. -/
def Config.Key.IsNamedBy (k : Key) (name : Bytes) : Prop :=
  name = k.name ∨ ∃ i, name = Bytes.ofString k.name ++ "[" ++ Bytes.ofNat i ++ "]"

namespace Setting

def key : Setting → Key
  | .language _ => .language
  | .format _ => .format
  | .color _ => .color
  | .logLevel _ => .logLevel
  | .jobs _ => .jobs
  | .sharedCache _ => .sharedCache
  | .tables _ => .tables
  | .offsets _ => .offsets
  | .maxDepth _ => .maxDepth
  | .includes _ => .includes
  | .excludes _ => .excludes
  | .followSymlinks _ => .followSymlinks

/-- A language counts without the white space around it; every other value as it is. -/
def trimmed : Setting → Setting
  | .language text => .language (Text.trimSpace text)
  | s => s

@[simp] lemma trimmed_trimmed (s : Setting) : s.trimmed.trimmed = s.trimmed := by
  cases s <;> simp [trimmed, Text.trimSpace_trimSpace]

/-- What is wrong with one value. -/
def errors : Setting → List Finding
  | .format text => Config.wordFindings "format" "format" Config.knownFormats text text
  | .color text => Config.wordFindings "color" "color mode" Config.knownColors text text
  | .logLevel text => Config.wordFindings "log_level" "log level" Config.knownLogLevels text (Path.lower text)
  | .jobs n => if n < 0 then [⟨"jobs", "jobs must be >= 0 (0 means auto)", []⟩] else []
  | .maxDepth n =>
    if n < 0 then [⟨"output.max_depth", "max_depth must be >= 0 (0 means unlimited)", []⟩] else []
  | .includes patterns => Config.patternFindings "files.include" patterns
  | .excludes patterns => Config.patternFindings "files.exclude" patterns
  | _ => []

/-- The setting of a key that counts: the last one. -/
def last? (settings : List Setting) (k : Key) : Option Setting :=
  settings.reverse.find? fun s => s.key = k

lemma last?_concat (settings : List Setting) (s : Setting) (k : Key) :
    last? (settings ++ [s]) k = if s.key = k then some s else last? settings k := by
  simp [last?, List.find?_cons, apply_ite]
  split <;> simp_all

lemma last?_append (a b : List Setting) (k : Key) :
    last? (a ++ b) k = (last? b k).or (last? a k) := by
  simp [last?]

lemma mem_of_last? {settings : List Setting} {k : Key} {s : Setting} (h : last? settings k = some s) :
    s ∈ settings ∧ s.key = k := by
  refine ⟨List.mem_reverse.mp (List.mem_of_find?_eq_some h), ?_⟩
  simpa using List.find?_some h

end Setting

namespace Config

/-- The value under a key, as the setting that gives it. -/
def get (c : Config) : Key → Setting
  | .language => .language c.language
  | .format => .format c.format
  | .color => .color c.color
  | .logLevel => .logLevel c.logLevel
  | .jobs => .jobs c.jobs
  | .sharedCache => .sharedCache c.sharedCache
  | .tables => .tables c.tables
  | .offsets => .offsets c.offsets
  | .maxDepth => .maxDepth c.maxDepth
  | .includes => .includes c.includes
  | .excludes => .excludes c.excludes
  | .followSymlinks => .followSymlinks c.followSymlinks

/-- Two configurations with the same values are the same. -/
lemma ext_get {c d : Config} (h : ∀ k, c.get k = d.get k) : c = d := by
  cases c
  cases d
  simp only [mk.injEq]
  exact ⟨Setting.language.inj (h .language), Setting.format.inj (h .format), Setting.color.inj (h .color),
    Setting.logLevel.inj (h .logLevel), Setting.jobs.inj (h .jobs), Setting.sharedCache.inj (h .sharedCache),
    Setting.tables.inj (h .tables), Setting.offsets.inj (h .offsets), Setting.maxDepth.inj (h .maxDepth),
    Setting.includes.inj (h .includes), Setting.excludes.inj (h .excludes),
    Setting.followSymlinks.inj (h .followSymlinks)⟩

lemma get_set (c : Config) (s : Setting) (k : Key) :
    (c.set s).get k = if s.key = k then s else c.get k := by
  cases s <;> cases k <;> rfl

/-- After some settings each key has the value that was set last. -/
theorem get_apply (c : Config) (settings : List Setting) (k : Key) :
    (c.apply settings).get k = (Setting.last? settings k).getD (c.get k) := by
  induction settings using List.reverseRecOn with
  | nil => rfl
  | append_singleton settings s ih =>
    have hstep : c.apply (settings ++ [s]) = (c.apply settings).set s := by simp [apply]
    rw [hstep, get_set, Setting.last?_concat, ih]
    split <;> rfl

lemma apply_append (c : Config) (a b : List Setting) : c.apply (a ++ b) = (c.apply a).apply b := by
  simp [apply]

lemma get_normalized (c : Config) (k : Key) : c.normalized.get k = (c.get k).trimmed := by
  cases k <;> rfl

/-- Trimming first makes no difference to what comes out trimmed. -/
lemma normalized_apply (c : Config) (settings : List Setting) :
    (c.normalized.apply settings).normalized = (c.apply settings).normalized := by
  refine ext_get fun k => ?_
  simp only [get_normalized, get_apply]
  cases Setting.last? settings k <;> simp

/-- The keys whose values are checked. -/
def checked : List Key := [.format, .color, .logLevel, .jobs, .maxDepth, .includes, .excludes]

lemma errors_eq (c : Config) : c.errors = checked.flatMap fun k => (c.get k).errors := by
  simp [errors, checked, Setting.errors, get]

lemma mem_errors_iff {c : Config} {e : Finding} : e ∈ c.errors ↔ ∃ k, e ∈ (c.get k).errors := by
  rw [errors_eq, List.mem_flatMap]
  refine ⟨fun ⟨k, _, he⟩ => ⟨k, he⟩, fun ⟨k, he⟩ => ⟨k, ?_, he⟩⟩
  cases k <;> first | decide | cases he

/-- An invalid configuration has an invalid value. -/
lemma errors_eq_nil_iff {c : Config} : c.errors = [] ↔ ∀ k, (c.get k).errors = [] := by
  simp only [List.eq_nil_iff_forall_not_mem, mem_errors_iff, not_exists]
  exact forall_comm

@[simp] lemma errors_normalized (c : Config) : c.normalized.errors = c.errors := rfl

/-- Over a valid configuration only what was set can be wrong. -/
lemma exists_setting_of_mem_errors {c : Config} {settings : List Setting} {e : Finding} (hvalid : c.errors = [])
    (he : e ∈ (c.apply settings).errors) : ∃ s, Setting.last? settings s.key = some s ∧ e ∈ s.errors := by
  obtain ⟨k, he⟩ := mem_errors_iff.mp he
  rw [get_apply] at he
  cases hlast : Setting.last? settings k with
  | none =>
    rw [hlast, Option.getD_none, errors_eq_nil_iff.mp hvalid k] at he
    cases he
  | some s =>
    obtain rfl := (Setting.mem_of_last? hlast).2
    rw [hlast] at he
    exact ⟨s, hlast, he⟩

end Config

namespace Setting

lemma isNamedBy_of_mem_wordFindings {k : Key} {what : String} {known : List String} {shown word : Bytes}
    {e : Finding} (h : e ∈ Config.wordFindings k.name what known shown word) : k.IsNamedBy e.field := by
  unfold Config.wordFindings at h
  split at h
  · cases h
  · obtain rfl := List.mem_singleton.mp h
    exact .inl rfl

lemma isNamedBy_of_mem_patternFindings {k : Key} {patterns : List Bytes} {e : Finding}
    (h : e ∈ Config.patternFindings k.name patterns) : k.IsNamedBy e.field := by
  obtain ⟨found, hfound, he⟩ := List.mem_flatten.mp h
  obtain ⟨i, hi, rfl⟩ := List.mem_mapIdx.mp hfound
  refine .inr ⟨i, ?_⟩
  split at he
  · obtain rfl := List.mem_singleton.mp he
    rfl
  · split at he
    · cases he
    · obtain rfl := List.mem_singleton.mp he
      rfl

/-- An error names the key whose value is wrong. -/
theorem isNamedBy_of_mem_errors {s : Setting} {e : Finding} (h : e ∈ s.errors) : s.key.IsNamedBy e.field := by
  cases s with
  | format text => exact isNamedBy_of_mem_wordFindings (k := .format) h
  | color text => exact isNamedBy_of_mem_wordFindings (k := .color) h
  | logLevel text => exact isNamedBy_of_mem_wordFindings (k := .logLevel) h
  | includes patterns => exact isNamedBy_of_mem_patternFindings (k := .includes) h
  | excludes patterns => exact isNamedBy_of_mem_patternFindings (k := .excludes) h
  | jobs n | maxDepth n =>
    simp only [errors] at h
    split at h
    · obtain rfl := List.mem_singleton.mp h
      exact .inl rfl
    · cases h
  | language text | sharedCache b | tables b | offsets b | followSymlinks b => cases h

end Setting
end LosslessTree
