import LosslessTree.Proofs.Edit.Tree
import LosslessTree.Proofs.Language.Parsing

/-! The command that edits a file gives the same text whichever way it goes: through the tokens of the
tree, or through the text and the parser. -/
namespace LosslessTree

namespace Language

/-- The languages whose parsers keep every text. -/
def IsLossless (language : Language) : Prop := language = .ofCalc ∨ language = .ofDecl

variable {language : Language}

lemma IsLossless.parse (h : language.IsLossless) (src : Bytes) (cache : Cache) :
    ∃ tree, (language.parse src cache .never).result = .ok tree ∧ tree.isNode = true ∧ tree.text = src := by
  obtain rfl | rfl := h
  · obtain ⟨ts, hitems, hparse⟩ := Calc.parse_items src cache
    have htree := hitems.covers.represents (Calc.flatMap_text_lex src) .root
    exact ⟨_, hparse, htree.isNode, htree.text⟩
  · obtain ⟨ts, hsource, hparse⟩ := Decl.parse_source src cache
    have htree := hsource.covers.represents (Decl.flatMap_text_lex src) .sourceFile
    exact ⟨_, hparse, htree.isNode, htree.text⟩

/-- Among the built-in languages such a language is found by its name. -/
lemma IsLossless.resolve (h : language.IsLossless) (tables : Bool) (path content : Bytes) :
    (Registry.builtin tables).resolve path content language.name = .ok language := by
  have hlookup : (Registry.builtin tables).lookup? language.name = some language := by
    obtain rfl | rfl := h
    · exact List.find?_cons_of_pos (by simp)
    · have hother : (Path.lower ofCalc.name == Path.lower ofDecl.name) = false := by decide
      exact (List.find?_cons_of_neg (by simp [hother])).trans (List.find?_cons_of_pos (by simp))
  have hname : language.name.isEmpty = false := by obtain rfl | rfl := h <;> rfl
  rw [Registry.resolve, hname, hlookup]
  rfl

end Language

namespace Command

variable {language : Language} {shell : Shell}

/-- What a job gives in a shell. -/
def resultIn {α : Type} (shell : Shell) (job : Job α) : Except Failure α := (job.run.run shell).1

/-- The outcome is a tree with this text. -/
def Renders (text : Bytes) (result : Except Failure FileOutcome) : Prop :=
  ∃ outcome tree, result = .ok outcome ∧ outcome.result = .ok tree ∧ tree.text = text

lemma resultIn_bind {α β : Type} {job : Job α} {next : α → Job β} {a : α} {after : Shell}
    (h : job.run.run shell = (.ok a, after)) : resultIn shell (job >>= next) = resultIn after (next a) := by
  unfold resultIn
  change (((job.run >>= ExceptT.bindCont next : StateM Shell _)).run shell).1 = _
  rw [StateT.run_bind, h]
  rfl

/-- Work that is asked for in a shell sees its cancellation. -/
lemma run_counted {α : Type} (work : Cancellation → α × Cancellation) (shell : Shell) :
    (Job.counted work).run.run shell =
      (.ok (work shell.cancellation).1, { shell with cancellation := (work shell.cancellation).2 }) := rfl

/-- A text that is parsed again has a tree with that text. -/
lemma renders_editText (session : Session) (source : EditSource) (h : language.IsLossless)
    {edits : List TextEdit} {text : Bytes} (hshell : shell.cancellation = .never)
    (htext : TextEdit.applyText source.content edits = .ok text) :
    Renders text (resultIn shell (editText session source language edits)) := by
  obtain ⟨tree, hparse, -, hsame⟩ := h.parse text {}
  unfold editText
  rw [htext]
  dsimp only
  rw [Session.parseSource, resultIn_bind (run_counted _ shell), hshell]
  have houtcome : session.registry.parseSource source.name text language.name {} .never =
      (⟨source.name, some language, .ok tree, 0, {}⟩, (language.parse text {} .never).cache,
        (language.parse text {} .never).cancellation) := by
    rw [Registry.parseSource, Session.registry, h.resolve]
    dsimp only
    rw [hparse]
    rfl
  rw [houtcome]
  exact ⟨_, tree, rfl, rfl, hsame⟩

lemma editText_of_error (session : Session) (source : EditSource) (language : Language)
    {edits : List TextEdit} {e : EditError} (shell : Shell)
    (herror : TextEdit.applyText source.content edits = .error e) :
    resultIn shell (editText session source language edits) = .error (.ofEditError e) := by
  unfold editText
  rw [herror]
  rfl

/-- Both ways of editing a file fail alike or give the same text. For every content of the file and
every batch of edits they fail with the error that the text gives, or come to trees whose text is the
edited one. -/
theorem applyEdits_agree (session : Session) (source : EditSource) (hlanguage : language.IsLossless)
    (edits : List TextEdit) (cache : Cache) (shell : Shell) (hshell : shell.cancellation = .never) :
    ∃ tree, (language.parse source.content cache .never).result = .ok tree ∧
      match TextEdit.applyText source.content edits with
      | .error e => ∀ before reparse,
          resultIn shell (applyEdits session source before language tree edits reparse) =
            .error (.ofEditError e)
      | .ok text => ∀ before reparse,
          Renders text (resultIn shell (applyEdits session source before language tree edits reparse)) := by
  obtain ⟨tree, hparse, hroot, htree⟩ := hlanguage.parse source.content cache
  refine ⟨tree, hparse, ?_⟩
  cases htext : TextEdit.applyText source.content edits with
  | error e =>
    intro before reparse
    cases reparse with
    | true => exact editText_of_error session source language shell htext
    | false =>
      obtain ⟨hall, htextual⟩ := TextEdit.applyAll_of_error (some language.relex?) (htree.symm ▸ htext)
      unfold applyEdits
      rw [if_neg (by decide), hall]
      dsimp only
      rw [htextual]
      rfl
  | ok text =>
    intro before reparse
    cases reparse with
    | true => exact renders_editText session source hlanguage hshell htext
    | false =>
      unfold applyEdits
      rw [if_neg (by decide)]
      rcases TextEdit.applyAll_cases (some language.relex?) hroot (htree.symm ▸ htext) with
        ⟨tree', -, hall, -, htree'⟩ | ⟨e, hall, htextual⟩
      · rw [hall]
        exact ⟨_, tree', rfl, rfl, htree'⟩
      · rw [hall]
        dsimp only
        rw [if_pos htextual]
        -- what is logged changes the shell, but not its cancellation
        exact renders_editText session source hlanguage hshell htext

/-- An operator that becomes another one does not stay in its token. -/
theorem applyEdits_agree_operator :
    ∃ tree, (Calc.parse "1+2" {} .never).result = .ok tree ∧
      ∀ before reparse, Renders "1*2" (resultIn { files := {} }
        (applyEdits ⟨{}, [], []⟩ ⟨"sum.calc", "1+2", none⟩ before .ofCalc tree [⟨⟨1, 2⟩, "*"⟩] reparse)) := by
  have htext : TextEdit.applyText "1+2" [⟨⟨1, 2⟩, "*"⟩] = .ok "1*2" := by decide +kernel
  have hagree := applyEdits_agree ⟨{}, [], []⟩ ⟨"sum.calc", "1+2", none⟩
    (.inl rfl : Language.IsLossless .ofCalc) [⟨⟨1, 2⟩, "*"⟩] {} { files := {} } rfl
  obtain ⟨tree, hparse, h⟩ := hagree
  rw [htext] at h
  exact ⟨tree, hparse, h⟩

end Command
end LosslessTree
