import ModalGraph.Metrics
import ModalGraph.Proofs.Compiler.Accounts
import ModalGraph.Proofs.Compiler.Refusals

/-!
# How compilations are counted

Counting a report of a compilation adds one under its mode and the label of its outcome (`compiles_record`), so that after some reports
the counters say how many compilations of each kind there were among them (`compiles_records`). A text that cannot be read reports
nothing, though, and with builtin operators only such a text has an outcome with the label of syntax errors. So the counters say for all
labels but this one how many texts had such an outcome; what they lack altogether are the texts that could not be read
(`compilations_counted`).
-/

namespace ModalGraph

open Formula

/-! ## Tallies -/

namespace Tally

variable {κ : Type}

/-- The number of all keys together that are of some kind. -/
def totalOf (p : κ → Bool) (t : Tally κ) : Nat :=
  total (t.filter fun e => p e.1)

theorem total_eq (t : Tally κ) : total t = totalOf (fun _ => true) t := by
  rw [totalOf, List.filter_true]

theorem totalOf_cons (p : κ → Bool) (key : κ) (n : Nat) (t : Tally κ) :
    totalOf p ((key, n) :: t) = (if p key then n else 0) + totalOf p t := by
  rw [totalOf, List.filter_cons]
  cases p key with
  | true => rfl
  | false => exact (Nat.zero_add _).symm

/-- One more of a key is one more of its kind, and no more of another one. -/
theorem totalOf_count [BEq κ] [LawfulBEq κ] (p : κ → Bool) (key : κ) (t : Tally κ) :
    totalOf p (count key t) = totalOf p t + (if p key then 1 else 0) := by
  induction t with
  | nil => exact (totalOf_cons p key 1 []).trans (Nat.add_comm _ _)
  | cons e t ih =>
    obtain ⟨k, n⟩ := e
    rw [count]
    split
    · rename_i hkey
      obtain rfl := eq_of_beq hkey
      rw [totalOf_cons, totalOf_cons]
      split <;> omega
    · rw [totalOf_cons, totalOf_cons, ih, Nat.add_assoc]

end Tally

/-! ## Reports -/

/-- The label under which a report of a compilation is counted. -/
def Event.compileLabel? : Event → Option String
  | .compileFinish _ _ _ _ _ failure => some (Failure.outcomeLabel failure)
  | _ => none

namespace Metrics

/-- The number of compilations that are counted under a label. -/
def compilesWith (m : Metrics) (label : String) : Nat :=
  m.compiles.totalOf fun key => key.2 == label

variable (p : String → Bool)

/-- A report is one more compilation of those with some labels, if it is the report of one. -/
theorem compiles_record (m : Metrics) (e : Event) : (m.record e).compiles.totalOf (fun key => p key.2) =
    m.compiles.totalOf (fun key => p key.2) + (if e.compileLabel?.any p then 1 else 0) := by
  cases e with
  | compileFinish => exact Tally.totalOf_count _ _ _
  | _ => rfl

/-- Some reports are as many more compilations of those with some labels as there are reports of such among them. -/
theorem compiles_records (m : Metrics) (es : List Event) : (es.foldl record m).compiles.totalOf (fun key => p key.2) =
    m.compiles.totalOf (fun key => p key.2) + es.countP fun e => e.compileLabel?.any p := by
  induction es generalizing m with
  | nil => rfl
  | cons e es ih =>
    rw [List.foldl_cons, ih, compiles_record, List.countP_cons]
    omega

end Metrics

/-! ## Outcomes -/

namespace Compiler

/-- The label under which an outcome is counted. -/
def Outcome.label (out : Outcome) : String :=
  Failure.outcomeLabel (Failure.reported out.result)

/-- A text that cannot be read as a formula. -/
def isUnread (text : Bytes) : Bool :=
  !(parse text).isOk

/-- Compiling a text reports one finish with the label of the outcome, unless the text cannot be read. -/
theorem compile_labels (c : Compiler) (text : Bytes) (p : String → Bool) :
    ((c.compile false text).events.countP fun e => e.compileLabel?.any p) + (if isUnread text && p "syntax_err" then 1 else 0) =
      if p (c.compile false text).label then 1 else 0 := by
  cases hparse : parse text with
  | error f =>
    rw [compile, isUnread, hparse]
    exact Nat.zero_add _
  | ok e =>
    obtain ⟨created, reused, layers, hevents, -⟩ := c.compileAs_accounted text e
    have hcompile : c.compile false text = c.compileAs false text e := compile_of_parse hparse false
    have hread : isUnread text = false := by rw [isUnread, hparse]; rfl
    rw [hcompile, hread, hevents, List.countP_cons, List.countP_cons]
    exact Nat.zero_add _

/-- Compiling some texts reports a finish for each of them with the label of its outcome, unless the text cannot be read. -/
theorem reports_labels (c : Compiler) (texts : List Bytes) (p : String → Bool) :
    ((c.reports (texts.map (.text false))).countP fun e => e.compileLabel?.any p) +
        (texts.countP fun text => isUnread text && p "syntax_err") =
      (c.answers (texts.map (.text false))).countP fun out => p out.label := by
  induction texts generalizing c with
  | nil => rfl
  | cons text texts ih =>
    have hfirst := c.compile_labels text p
    rw [show c.compile false text = (Request.text false text).on c from rfl] at hfirst
    have hrest := ih ((Request.text false text).on c).compiler
    rw [List.map_cons, reports_cons, List.countP_append, answers, List.countP_cons, List.countP_cons]
    omega

theorem length_answers (c : Compiler) (rs : List Request) : (c.answers rs).length = rs.length := by
  induction rs generalizing c with
  | nil => rfl
  | cons r rs ih => rw [answers, List.length_cons, ih, List.length_cons]

/-- With builtin operators, a text that can be read has no outcome with the label of syntax errors. -/
theorem label_read {settings : Settings} {c : Compiler} (hc : Reachable Builtin.registries settings c) {text : Bytes}
    (h : (c.compile false text).label = "syntax_err") : isUnread text = true := by
  obtain ⟨es, hlisted⟩ := hc.listed
  cases hparse : parse text with
  | error f => rw [isUnread, hparse]; rfl
  | ok e =>
    rw [Outcome.label] at h
    cases hresult : (c.compile false text).result with
    | ok m =>
      rw [hresult] at h
      exact absurd (show Failure.successLabel = "syntax_err" from h) (by decide)
    | error f =>
      rw [hresult] at h
      -- A compilation that breaks off is reported as one that has not failed.
      rw [Failure.reported] at h
      split at h
      · exact absurd (show Failure.successLabel = "syntax_err" from h) (by decide)
      change f.result = "syntax_err" at h
      have hvalid : c.settings.validate = .ok () := hlisted.settings_eq ▸ hc.validate
      rcases (compile_refuses hparse hresult).builtin hlisted.ops_eq hvalid with hlabel | hgeneric
      · have hlabel := hlabel.1
        rw [h] at hlabel
        exact absurd hlabel (by decide)
      · rw [hgeneric.result_eq] at h
        exact absurd h (by decide)

/-- With builtin operators, no report of a compilation has the label of syntax errors. -/
theorem reports_read {settings : Settings} {c : Compiler} (hc : Reachable Builtin.registries settings c) (texts : List Bytes) :
    ((c.reports (texts.map (.text false))).countP fun e => e.compileLabel?.any (· == "syntax_err")) = 0 := by
  induction texts generalizing c with
  | nil => rfl
  | cons text texts ih =>
    have hfirst := c.compile_labels text (· == "syntax_err")
    rw [List.map_cons, reports_cons, List.countP_append, Request.on, ih (hc.compile false text), Nat.add_zero]
    -- A label of syntax errors is that of a text that cannot be read, and this one reports nothing.
    by_cases hlabel : (c.compile false text).label = "syntax_err"
    · rw [label_read hc hlabel, hlabel] at hfirst
      exact Nat.add_right_cancel hfirst
    · rw [beq_false_of_ne hlabel] at hfirst
      exact (Nat.add_eq_zero_iff.mp hfirst).1

/-- What is counted for some texts, one after the other. -/
def counted (c : Compiler) (texts : List Bytes) : Metrics :=
  (c.reports (texts.map (.text false))).foldl Metrics.record {}

end Compiler

open Compiler

/-- The compilations of some texts that are counted are those of the texts that can be read, and under each label they are the texts
whose outcome has that label; of the texts with the label of syntax errors only those are counted that can be read. With builtin operators
there are none of these. -/
theorem compilations_counted {ops : Registries} {settings : Settings} {c : Compiler} (h : Compiler.new ops settings = .ok c)
    (texts : List Bytes) :
    (c.counted texts).compiles.total + texts.countP isUnread = texts.length ∧
      (∀ label, (c.counted texts).compilesWith label + (if label = "syntax_err" then texts.countP isUnread else 0) =
        (c.answers (texts.map (.text false))).countP fun out => out.label == label) ∧
      (ops = Builtin.registries → (c.counted texts).compilesWith "syntax_err" = 0) := by
  have hcount : ∀ p : String → Bool, (c.counted texts).compiles.totalOf (fun key => p key.2) =
      (c.reports (texts.map (.text false))).countP fun e => e.compileLabel?.any p :=
    fun p => (Metrics.compiles_records p {} _).trans (Nat.zero_add _)
  refine ⟨?_, fun label => ?_, fun hops => ?_⟩
  · have hlabels := c.reports_labels texts fun _ => true
    simp only [Bool.and_true, List.countP_true, length_answers, List.length_map] at hlabels
    rw [Tally.total_eq, hcount fun _ => true, hlabels]
  · have hlabels := c.reports_labels texts (· == label)
    rw [Metrics.compilesWith, hcount (· == label), ← hlabels]
    by_cases hlabel : label = "syntax_err"
    · subst hlabel
      simp
    · simp [hlabel, Ne.symm hlabel]
  · subst hops
    rw [Metrics.compilesWith, hcount (· == "syntax_err"), reports_read (.new h) texts]

namespace Sample

/-- A text that cannot be read, one with an operator that is not there, and one that is fine. -/
def threeTexts : List Bytes :=
  [Bytes.ofString "a ;", Bytes.ofString "b;nope", Bytes.ofString "b"]

end Sample

/-- Of three texts two are counted: one with an operator that is not there, one with success. -/
theorem compilations_counted_sample : Compiler.new Builtin.registries Sample.twoBases = .ok Sample.newCompiler ∧
    (Sample.newCompiler.counted Sample.threeTexts).compiles.total = 2 ∧
    (Sample.newCompiler.counted Sample.threeTexts).compilesWith "unknown_op" = 1 ∧
    (Sample.newCompiler.counted Sample.threeTexts).compilesWith "success" = 1 := by
  obtain ⟨htotal, hlabel, -⟩ := compilations_counted Sample.newCompiler_new Sample.threeTexts
  have hunread : Sample.threeTexts.countP isUnread = 1 := by decide +kernel
  have hlength : Sample.threeTexts.length = 3 := rfl
  have hunknown := hlabel "unknown_op"
  have hsuccess := hlabel "success"
  rw [if_neg (by decide), Nat.add_zero] at hunknown hsuccess
  refine ⟨Sample.newCompiler_new, by omega, hunknown.trans ?_, hsuccess.trans ?_⟩
  · decide +kernel
  · decide +kernel

namespace Sample

/-- A formula that breaks off. -/
def brokenOff : Bytes :=
  Bytes.ofString "a ;"

end Sample

/-- A text that breaks off has an outcome with the label of syntax errors, but neither under this label nor under any other is its
compilation counted. -/
theorem compilation_uncounted :
    (Sample.newCompiler.answers [.text false Sample.brokenOff]).map Outcome.label = ["syntax_err"] ∧
      (Sample.newCompiler.counted [Sample.brokenOff]).compiles.total ≠ 1 ∧
      (Sample.newCompiler.counted [Sample.brokenOff]).compilesWith "syntax_err" ≠ 1 := by
  decide +kernel

end ModalGraph
