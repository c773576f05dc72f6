import LosslessTree.Proofs.Language.Cancellation
import LosslessTree.Proofs.Markdown.Lossless

/-! Cancelling the parser of Markdown texts. It checks before and after its blocks are found and before the
first of every 256 spans; after a check that failed no span is taken and the blocks are only passed by. -/
namespace LosslessTree.Markdown

/-- How many checks stand before so many spans. -/
def checksBefore (count : Nat) : Nat := (count + checkInterval - 1) / checkInterval

/-- The check before span `m + 1` fails exactly if all checks that pass are made by then. -/
lemma due_iff {m n : Nat} (hle : m ≤ checkInterval * n) (hm : m % checkInterval = 0) :
    n - checksBefore m = 0 ↔ m = checkInterval * n := by
  unfold checksBefore checkInterval at *
  omega

/-- What is left of the checks after one that passed. -/
lemma left_of_check {m n : Nat} (hm : m % checkInterval = 0) :
    n - checksBefore m - 1 = n - checksBefore (m + 1) := by
  unfold checksBefore checkInterval at *
  omega

lemma left_of_no_check {m : Nat} (hm : m % checkInterval ≠ 0) : checksBefore m = checksBefore (m + 1) := by
  unfold checksBefore checkInterval at *
  omega

lemma checksBefore_le_iff {count n : Nat} : checksBefore count ≤ n ↔ count ≤ checkInterval * n := by
  unfold checksBefore checkInterval
  omega

namespace Writer

variable {n : Nat} {spans ahead : List Span} {w p : Writer} {f g : Writer → Writer}

/-- The same writer with the checks that are left to it after those it has made. -/
def on (n : Nat) (w : Writer) : Writer := { w with cancellation := .after (n - checksBefore w.fed) }

/-- A writer that nobody cancels, before the check that would fail. -/
structure OnTime (n : Nat) (spans : List Span) (w : Writer) : Prop where
  running : w.cancelled = false
  never : w.cancellation = .never
  ahead : w.rest = spans.drop w.fed
  bounded : w.fed ≤ spans.length
  early : w.fed ≤ checkInterval * n

/-- A writer that was cancelled, because there are more spans than the checks allow. -/
structure Stopped (n : Nat) (spans : List Span) (w : Writer) : Prop where
  cancelled : w.cancelled = true
  late : checkInterval * n < spans.length

/-- What became of the limited writer where the other one is at `w`. -/
def Shadow (n : Nat) (spans : List Span) (p w : Writer) : Prop :=
  (OnTime n spans w ∧ p = w.on n) ∨ Stopped n spans p

/-- A writer that was stopped stays so, and the limited writer follows the other one until it is stopped. -/
structure Steady (n : Nat) (spans : List Span) (f : Writer → Writer) : Prop where
  stopped : ∀ p, Stopped n spans p → Stopped n spans (f p)
  onTime : ∀ w, OnTime n spans w → Shadow n spans (f (w.on n)) (f w)

lemma OnTime.shadow (h : OnTime n spans w) : Shadow n spans (w.on n) w := .inl ⟨h, rfl⟩

lemma steady_id : Steady n spans fun w => w := ⟨fun _ hp => hp, fun _ hw => hw.shadow⟩

lemma Steady.comp (hg : Steady n spans g) (hf : Steady n spans f) : Steady n spans fun w => g (f w) := by
  refine ⟨fun p hp => hg.stopped _ (hf.stopped p hp), fun w hw => ?_⟩
  rcases hf.onTime w hw with ⟨hfw, heq⟩ | hstopped
  · rw [heq]
    exact hg.onTime _ hfw
  · exact .inr (hg.stopped _ hstopped)

lemma steady_start (k : Kind) : Steady n spans (start · k) :=
  ⟨fun _ hp => ⟨hp.cancelled, hp.late⟩,
    fun _ hw => .inl ⟨⟨hw.running, hw.never, hw.ahead, hw.bounded, hw.early⟩, rfl⟩⟩

lemma steady_finish : Steady n spans finish :=
  ⟨fun _ hp => ⟨hp.cancelled, hp.late⟩,
    fun _ hw => .inl ⟨⟨hw.running, hw.never, hw.ahead, hw.bounded, hw.early⟩, rfl⟩⟩

/-- Makes a check that passes. -/
def pass (w : Writer) : Writer := { w with cancellation := w.cancellation.next }

lemma feed_of_cancelled (hp : p.cancelled = true) (offset : Nat) (ahead : List Span) :
    p.feed offset ahead = p := by
  cases ahead with
  | nil => rfl
  | cons s ahead => rw [feed, if_pos (by simp [hp])]

/-- The next span is taken unless a check before it fails. -/
lemma feed_of_before {s : Span} {offset : Nat} (hw : w.cancelled = false) (hs : s.start < offset) :
    w.feed offset (s :: ahead) =
      if w.fed % checkInterval = 0 then
        if w.cancellation.isDue = true then { w with cancellation := w.cancellation.next, cancelled := true }
        else (w.pass.take s ahead).feed offset ahead
      else (w.take s ahead).feed offset ahead := by
  rw [Writer.feed, if_neg (by simp [hw, hs])]
  by_cases hcheck : w.fed % checkInterval = 0
  · by_cases hdue : w.cancellation.isDue = true <;> simp [hcheck, hdue, take, pass, hw]
  · have hnone : (w.fed % checkInterval == 0) = false := by simpa using hcheck
    simp [hcheck, hnone, take, hw]

/-- What is next on time is the span whose number is one more than was counted. -/
lemma OnTime.next {s : Span} (hw : OnTime n spans w) (h : w.rest = s :: ahead) :
    w.fed < spans.length ∧ spans.drop (w.fed + 1) = ahead := by
  have hdrop := hw.ahead
  rw [h] at hdrop
  have hlt : w.fed < spans.length := by
    apply Nat.lt_of_not_le
    intro hle
    rw [List.drop_of_length_le hle] at hdrop
    cases hdrop
  rw [List.drop_eq_getElem_cons hlt] at hdrop
  exact ⟨hlt, (List.cons.inj hdrop).2.symm⟩

/-- Nothing is left to feed: every span was counted. -/
lemma OnTime.all_fed (hw : OnTime n spans w) (hend : w.rest = []) : w.fed = spans.length := by
  have hdrop := hw.ahead
  rw [hend] at hdrop
  exact Nat.le_antisymm hw.bounded (List.drop_eq_nil_iff.mp hdrop.symm)

/-- The writer that nobody cancels takes the next span. -/
lemma OnTime.feed_before {s : Span} {offset : Nat} (hw : OnTime n spans w) (hs : s.start < offset) :
    w.feed offset (s :: ahead) = (w.take s ahead).feed offset ahead := by
  have hpass : w.pass = w := by rw [pass, hw.never, Cancellation.next_never, ← hw.never]
  have hdue : ¬ w.cancellation.isDue = true := by
    rw [hw.never]
    exact Bool.false_ne_true
  rw [feed_of_before hw.running hs, if_neg hdue, hpass, ite_self]

lemma isDue_on : (w.on n).cancellation.isDue = true ↔ n - checksBefore w.fed = 0 := by
  simp [on, Cancellation.isDue, Cancellation.after]

/-- So does the limited writer, as long as it has checks left. -/
lemma OnTime.feed_on {s : Span} {offset : Nat} (hw : OnTime n spans w) (hs : s.start < offset)
    (hleft : w.fed ≠ checkInterval * n) :
    (w.on n).feed offset (s :: ahead) = ((w.take s ahead).on n).feed offset ahead := by
  have hon : (w.on n).cancelled = false := hw.running
  have hfed : (w.on n).fed = w.fed := rfl
  rw [feed_of_before hon hs, hfed]
  by_cases hcheck : w.fed % checkInterval = 0
  · have hdue : ¬ (w.on n).cancellation.isDue = true := by
      rw [isDue_on, due_iff hw.early hcheck]
      exact hleft
    have hsame : (w.on n).pass.take s ahead = (w.take s ahead).on n := by
      simp only [take, on, pass, Cancellation.next, Cancellation.after, Option.map_some, left_of_check hcheck]
    rw [if_pos hcheck, if_neg hdue, hsame]
  · have hsame : (w.on n).take s ahead = (w.take s ahead).on n := by
      simp only [take, on, left_of_no_check hcheck]
    rw [if_neg hcheck, hsame]

/-- Where it has none left, it stops. -/
lemma OnTime.stopped_feed {s : Span} {offset : Nat} (hw : OnTime n spans w) (hs : s.start < offset)
    (hlast : w.fed = checkInterval * n) (hlt : w.fed < spans.length) :
    Stopped n spans ((w.on n).feed offset (s :: ahead)) := by
  have hcheck : (w.on n).fed % checkInterval = 0 := by
    change w.fed % checkInterval = 0
    rw [hlast, Nat.mul_mod_right]
  have hdue : (w.on n).cancellation.isDue = true := isDue_on.mpr ((due_iff hw.early hcheck).mpr hlast)
  have hon : (w.on n).cancelled = false := hw.running
  rw [feed_of_before hon hs, if_pos hcheck, if_pos hdue]
  exact ⟨rfl, hlast ▸ hlt⟩

/-- The limited writer takes the same spans until it is stopped. -/
lemma OnTime.feed (hw : OnTime n spans w) (offset : Nat) (h : w.rest = ahead) :
    Shadow n spans ((w.on n).feed offset ahead) (w.feed offset ahead) := by
  induction ahead generalizing w with
  | nil => exact hw.shadow
  | cons s ahead ih =>
    by_cases hs : s.start < offset
    · obtain ⟨hlt, hahead⟩ := hw.next h
      by_cases hlast : w.fed = checkInterval * n
      · exact .inr (hw.stopped_feed hs hlast hlt)
      · rw [hw.feed_before hs, hw.feed_on hs hlast]
        exact ih ⟨hw.running, hw.never, hahead.symm, hlt, Nat.lt_of_le_of_ne hw.early hlast⟩ rfl
    · have hstay : ∀ v : Writer, v.feed offset (s :: ahead) = v := by
        intro v
        rw [Writer.feed, if_pos (by simp [Nat.le_of_not_lt hs])]
      rw [hstay, hstay]
      exact hw.shadow

lemma steady_feedUntil (offset : Nat) : Steady n spans (feedUntil · offset) := by
  refine ⟨fun p hp => ?_, fun w hw => hw.feed offset rfl⟩
  rw [feedUntil, feed_of_cancelled hp.cancelled]
  exact hp

lemma steady_blocks {os : List Outline} (ih : ∀ o ∈ os, Steady n spans (block · o)) :
    Steady n spans (blocks · os) := by
  induction os with
  | nil => exact steady_id
  | cons o os ihs =>
    obtain ⟨ho, hos⟩ := List.forall_mem_cons.mp ih
    exact (ihs hos).comp ho

/-- Whether there is something to write is the same for the limited writer. -/
lemma Steady.ifToken (hf : Steady n spans f) (stop : Nat) :
    Steady n spans fun w => if w.hasTokenBefore stop = true then f w else w := by
  refine ⟨fun p hp => ?_, fun w hw => ?_⟩
  · by_cases hfirst : p.hasTokenBefore stop = true
    · simpa only [if_pos hfirst] using hf.stopped p hp
    · simpa only [if_neg hfirst] using hp
  · have hsame : (w.on n).hasTokenBefore stop = w.hasTokenBefore stop := rfl
    rw [hsame]
    by_cases hfirst : w.hasTokenBefore stop = true
    · simpa only [if_pos hfirst] using hf.onTime w hw
    · simpa only [if_neg hfirst] using hw.shadow

/-- The limited writer follows through every nesting of blocks. -/
theorem steady_block (o : Outline) : Steady n spans (block · o) := by
  induction o using Outline.induction with
  | node symbol extent children ih =>
    have hbelow := steady_blocks ih
    by_cases hnode : symbol = none ∨ extent = none
    · have hblock : (block · (.node symbol extent children)) = (blocks · children) := by
        funext w
        exact block_passed w hnode children
      rw [hblock]
      exact hbelow
    · obtain ⟨hsymbol, hextent⟩ := not_or.mp hnode
      obtain ⟨symbol, rfl⟩ := Option.ne_none_iff_exists'.mp hsymbol
      obtain ⟨e, rfl⟩ := Option.ne_none_iff_exists'.mp hextent
      have hfeed : Steady n spans (feedUntil · e.stop) := steady_feedUntil e.stop
      have hinside := steady_finish.comp (hfeed.comp (hbelow.comp (steady_start symbol.kind)))
      have hblock : (block · (.node (some symbol) (some e) children)) = fun w : Writer =>
          if (w.feedUntil e.start).hasTokenBefore e.stop = true then
            ((((w.feedUntil e.start).start symbol.kind).blocks children).feedUntil e.stop).finish
          else w.feedUntil e.start := by
        funext w
        exact block_node w symbol e children
      rw [hblock]
      exact (hinside.ifToken e.stop).comp (steady_feedUntil e.start)

end Writer

/-- What building comes to over any blocks if only so many checks pass. -/
theorem build_allOrNothing (src : Bytes) (document : Block) (cache : Cache) (n : Nat) :
    AllOrNothing "markdown" (checksBefore (tokenize src).length) (build src document cache) n := by
  have hroot : Writer.OnTime n (tokenize src) (Writer.root (tokenize src) cache .never) :=
    ⟨rfl, rfl, rfl, Nat.zero_le _, Nat.zero_le _⟩
  have hon : (Writer.root (tokenize src) cache .never).on n = Writer.root (tokenize src) cache (.after n) := by
    simp [Writer.on, Writer.root, Writer.start, checksBefore, checkInterval]
  have hshadow := ((Writer.steady_feedUntil src.length).comp
    (Writer.steady_block (Outline.ofBlock src document))).onTime _ hroot
  rw [hon] at hshadow
  change Writer.Shadow n _ (Writer.written src document cache (.after n))
    (Writer.written src document cache .never) at hshadow
  have hwhole := build_never src document cache
  rcases hshadow with ⟨honTime, hsame⟩ | hstopped
  · have hfed := honTime.all_fed (adds_written src document cache).2
    have hle : checksBefore (tokenize src).length ≤ n := by
      rw [checksBefore_le_iff, ← hfed]
      exact honTime.early
    have hbuild : build src document cache (.after n) = { build src document cache .never with
        cancellation := .after (n - checksBefore (tokenize src).length) } := by
      rw [Writer.build_eq, Writer.build_eq, hsame, ← hfed]
      rfl
    refine ⟨?_, fun _ => ⟨⟨_, congrArg Parsed.result hwhole⟩, hbuild⟩⟩
    rw [hbuild, hwhole]
    refine ⟨fun h => ?_, fun hlt => absurd hlt (Nat.not_lt_of_le hle)⟩
    cases h
  · have hlt : n < checksBefore (tokenize src).length := by
      apply Nat.lt_of_not_le
      rw [checksBefore_le_iff]
      exact Nat.not_le_of_lt hstopped.late
    have hresult : (build src document cache (.after n)).result = .error (.cancelled "markdown") := by
      rw [Writer.build_eq, Writer.outcome]
      simp [hstopped.cancelled]
    exact ⟨⟨fun _ => hlt, fun _ => hresult⟩, fun hle => absurd hlt (Nat.not_lt_of_le hle)⟩

/-- What parsing comes to if only so many checks pass: two of them are made before the first span. -/
theorem parse_allOrNothing (tables : Bool) (src : Bytes) (cache : Cache) (n : Nat) :
    AllOrNothing "markdown" (2 + checksBefore (tokenize src).length) (parse tables src cache) n := by
  match n with
  | 0 => exact ⟨⟨fun _ => by omega, fun _ => rfl⟩, fun hle => absurd hle (by omega)⟩
  | 1 => exact ⟨⟨fun _ => by omega, fun _ => rfl⟩, fun hle => absurd hle (by omega)⟩
  | n + 2 =>
    have hbuild := build_allOrNothing src (blocks src tables) cache n
    have hparse : parse tables src cache (.after (n + 2)) = build src (blocks src tables) cache (.after n) := rfl
    refine ⟨?_, fun hle => ?_⟩
    · rw [hparse, hbuild.cancelled_iff]
      omega
    · obtain ⟨hok, hsame⟩ := hbuild.complete (by omega)
      have hleft : n + 2 - (2 + checksBefore (tokenize src).length) = n - checksBefore (tokenize src).length := by
        omega
      rw [hparse, hsame, hleft, parse_eq_build]
      exact ⟨hok, rfl⟩

end LosslessTree.Markdown
