import EventScript.Command.Run
import EventScript.Node.Equality
import EventScript.Proofs.Emittable
import EventScript.Proofs.Files
import EventScript.Proofs.Session

/-! The two commands end alike, and nothing is written but the result of a run that succeeds. -/
namespace EventScript

namespace Files

/-- Both files can be read, and this is the tree in the second. -/
structure Loads (files : Files (StateM σ)) (w : σ) (source : Option String) (file : String)
    (tree : Node) : Prop where
  readable : ∀ path ∈ source, ∃ text, files.textAt w path = .ok text
  holds : ∃ text, files.textAt w file = .ok text ∧ Node.ofText text = .ok tree

variable {files : Files (StateM σ)} {view : View σ κ} {source : Option String} {file : String}

theorem Lawful.run_loadSource (lawful : files.Lawful view) (w : σ) (source : Option String) :
    (∃ message, (loadSource files source).run w = (.error message, w) ∧
      ¬ ∀ path ∈ source, ∃ text, files.textAt w path = .ok text) ∨
    ∃ text?, (loadSource files source).run w = (.ok text?, w) ∧
      ∀ path ∈ source, ∃ text, files.textAt w path = .ok text := by
  cases source with
  | none => exact .inr ⟨none, rfl, by simp⟩
  | some path =>
    rw [loadSource, run_bind (lawful.read w path)]
    cases h : files.textAt w path with
    | error e => exact .inl ⟨_, rfl, by simp [h]⟩
    | ok text => exact .inr ⟨some text, rfl, by simp [h]⟩

theorem Lawful.run_loadTree (lawful : files.Lawful view) (w : σ) (file : String) :
    (∃ message, (loadTree files file).run w = (.error message, w) ∧
      ¬ ∃ tree text, files.textAt w file = .ok text ∧ Node.ofText text = .ok tree) ∨
    ∃ tree, (loadTree files file).run w = (.ok tree, w) ∧
      ∃ text, files.textAt w file = .ok text ∧ Node.ofText text = .ok tree := by
  rw [loadTree, run_bind (lawful.read w file)]
  cases h : files.textAt w file with
  | error e => exact .inl ⟨_, rfl, by simp⟩
  | ok text =>
    dsimp only
    cases ht : Node.ofText text with
    | error e => exact .inl ⟨_, rfl, by simp [ht]⟩
    | ok tree => exact .inr ⟨tree, rfl, text, rfl, ht⟩

theorem Lawful.run_load (lawful : files.Lawful view) (w : σ) (source : Option String)
    (file : String) :
    (∃ message, (load files source file).run w = (.error message, w) ∧
      ∀ tree, ¬ files.Loads w source file tree) ∨
    ∃ text? tree, (load files source file).run w = (.ok (text?, tree), w) ∧
      files.Loads w source file tree := by
  rcases lawful.run_loadSource w source with ⟨message, hs, bad⟩ | ⟨text?, hs, good⟩
  · rw [load, run_bind hs]
    exact .inl ⟨message, rfl, fun tree h => bad h.readable⟩
  · rw [load, run_bind hs]
    dsimp only
    rcases lawful.run_loadTree w file with ⟨message, ht, bad⟩ | ⟨tree, ht, found⟩
    · rw [run_bind ht]
      exact .inl ⟨message, rfl, fun tree h => bad ⟨tree, h.holds⟩⟩
    · rw [run_bind ht]
      exact .inr ⟨text?, tree, rfl, good, found⟩

theorem Loads.unique (h : files.Loads w source file tree) (h' : files.Loads w source file tree') :
    tree = tree' := by
  obtain ⟨text, hr, ht⟩ := h.holds
  obtain ⟨text', hr', ht'⟩ := h'.holds
  cases hr.symm.trans hr'
  exact Except.ok.inj (ht.symm.trans ht')

end Files

/-! ### How runs end -/

/-- The exits of a run whose arguments are understood. -/
def Exit.Expected (exit : Exit) (screen : Screen) : Prop :=
  exit.code ∈ [0, 1, 101] ∨ ∃ bytes, screen.room < bytes ∧ exit = .fault (.outOfMemory bytes)

theorem caretLine_error {fault : Fault} (h : caretLine screen column = .error fault) :
    (Exit.fault fault).Expected screen := by
  rw [caretLine] at h
  split at h
  · cases h
  · split at h
    · cases h
      exact .inr ⟨_, by omega, rfl⟩
    · cases h
      exact .inl (by simp [Exit.code])

theorem Rejection.expected_screenText (rejection : Rejection) (source : Option String)
    (screen : Screen) :
    ((rejection.screenText source screen).2.elim Exit.failure Exit.fault).Expected screen := by
  have plain : Exit.failure.Expected screen := .inl (by simp [Exit.code])
  unfold screenText
  split
  · split
    · exact plain
    · split
      · exact plain
      · rename_i h
        exact caretLine_error h
  · exact plain

theorem Node.expected_of_optimizeProgram {t : Node}
    (h : (t.optimizeProgram tracing).outcome = .error (.fault fault)) (screen : Screen) :
    (Exit.fault fault).Expected screen := by
  have ofPass : fault = .notEmittable ∨ (Stop.fault fault).OfPass := by
    rw [optimizeProgram_outcome] at h
    cases hleft : t.optimize.outcome with
    | error stop =>
      rw [hleft] at h
      cases h
      exact .inr (halt_of_outcome hleft).ofPass
    | ok left =>
      rw [hleft, Except.bind] at h
      split at h
      · cases h
      · cases h
        exact .inl rfl
  left
  cases fault with
  | outOfMemory bytes =>
    rcases ofPass with h | h
    · cases h
    · exact h.elim
  | _ => simp [Exit.code]

theorem Outcome.expected_stopped {t : Node} (h : (t.optimizeProgram tracing).outcome = .error stop)
    (screen : Screen) (source : Option String) (out : String) :
    (Outcome.stopped screen source out stop).exit.Expected screen := by
  cases stop with
  | rejected rejection => exact rejection.expected_screenText source screen
  | fault fault => exact Node.expected_of_optimizeProgram h screen

namespace Request

variable {files : Files (StateM σ)} {view : View σ κ} {request : Request} {path : String}

/-- This is left of the program of a request; so it loads and is accepted. -/
def Leaves (request : Request) (files : Files (StateM σ)) (w : σ) (root : Option Node) : Prop :=
  ∃ tree program, files.Loads w request.source request.file tree ∧
    (tree.optimizeProgram request.verbose).outcome = .ok program ∧ program.root = root

theorem Leaves.unique (h : request.Leaves files w root) (h' : request.Leaves files w root') :
    root = root' := by
  obtain ⟨tree, program, loads, accepted, rfl⟩ := h
  obtain ⟨tree', program', loads', accepted', rfl⟩ := h'
  cases loads.unique loads'
  rw [Except.ok.inj (accepted.symm.trans accepted')]

/-- A check changes no file and ends as it would with the program shown in any way. -/
theorem run_check (lawful : files.Lawful view) (request : Request) (w : σ) (screen : Screen) :
    ∃ outcome, (request.run true files screen).run w = (outcome, w) ∧
      outcome.exit.Expected screen ∧
      (request.output = none →
        ∃ out, (request.run false files screen).run w = ({ outcome with out }, w)) := by
  simp only [Request.run]
  rcases lawful.run_load w request.source request.file with ⟨message, hl, -⟩ | ⟨text?, tree, hl, -⟩
  · simp only [run_bind hl]
    exact ⟨_, rfl, .inl (by simp [Outcome.failure, Exit.code]), fun _ => ⟨"", rfl⟩⟩
  · simp only [run_bind hl]
    rcases tree.optimizeProgram_alike with ⟨stop, hstop⟩ | ⟨root, hroot⟩
    · simp only [hstop]
      exact ⟨_, rfl, Outcome.expected_stopped (hstop false) .., fun _ => ⟨_, by cases stop <;> rfl⟩⟩
    · obtain ⟨notes, h⟩ := hroot (!true && request.verbose)
      obtain ⟨notes', h'⟩ := hroot (!false && request.verbose)
      simp only [h, h']
      refine ⟨_, rfl, .inl (by simp [Exit.code]), fun silent => ?_⟩
      cases root with
      | none => exact ⟨_, rfl⟩
      | some root =>
        simp only [silent, writeRoot]
        exact ⟨_, rfl⟩

/-- A request that is to write its result either does so and succeeds, or changes no file; it does
not succeed then if there is a result. -/
theorem run_write (lawful : files.Lawful view) (output : request.output = some path) (w : σ)
    (screen : Screen) :
    (∃ root out w', request.Leaves files w (some root) ∧ view.Written path root.toText w w' ∧
      (request.run false files screen).run w = (⟨.success, out, ""⟩, w')) ∨
    ∃ outcome, (request.run false files screen).run w = (outcome, w) ∧
      ∀ root, request.Leaves files w (some root) → outcome.exit ≠ .success := by
  rw [Request.run]
  rcases lawful.run_load w request.source request.file with
    ⟨message, hl, bad⟩ | ⟨text?, tree, hl, loads⟩
  · rw [run_bind hl]
    exact .inr ⟨_, rfl, fun root ⟨tree, _, loads, _⟩ => (bad tree loads).elim⟩
  · rw [run_bind hl]
    simp only [Bool.not_false, Bool.true_and, Bool.false_eq_true, if_false]
    cases accepted : (tree.optimizeProgram request.verbose).outcome with
    | error stop =>
      refine .inr ⟨_, rfl, fun root ⟨tree', _, loads', accepted', _⟩ => ?_⟩
      cases loads.unique loads'
      cases accepted.symm.trans accepted'
    | ok program =>
      obtain ⟨left, notes⟩ := program
      have leaves : request.Leaves files w left := ⟨tree, _, loads, accepted, rfl⟩
      cases left with
      | none =>
        refine .inr ⟨_, rfl, fun root h => ?_⟩
        cases leaves.unique h
      | some root =>
        simp only [output, writeRoot]
        rcases lawful.write w path root.toText with ⟨e, hw⟩ | ⟨w', hw, written⟩
        · exact .inr ⟨_, run_bind hw, fun _ _ => by simp [Outcome.failure]⟩
        · exact .inl ⟨root, _, w', leaves, written, run_bind hw⟩

end Request

namespace FileSystem

def foldedText : String :=
  "[\x7b\"UnaryArithmetic\":[\"Neg\",[\x7b\"Immediate\":[7]\x7d]]\x7d]"

def removedText : String :=
  "[\x7b\"While\":[[\x7b\"Immediate\":[0]\x7d],[\x7b\"Block\":[[]]\x7d]]\x7d]"

def desk : FileSystem where
  entries := [(["home"], .directory), (["home", "folded.json"], .file foldedText.toUTF8),
    (["home", "removed.json"], .file removedText.toUTF8)]
  working := ["home"]

def folding : Request where
  file := "folded.json"
  output := some "../out.json"

def removing : Request where
  file := "/home/removed.json"
  output := some "../out.json"

def showing : Request where
  file := "folded.json"
  verbose := true
  dump := some .ast

end FileSystem

end EventScript
