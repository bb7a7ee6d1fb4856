import EventScript.Command.FileSystem
import EventScript.Proofs.Scan

/-! What may be relied on of files: reading changes nothing, and writing fails and changes nothing
or leaves the whole text in one file. The file system keeps to it. -/
namespace EventScript

/-- How a world of files is looked at: where a path leads in it, and what a file of it holds. -/
structure View (σ κ : Type) where
  place : σ → String → κ
  content : σ → κ → Option ByteArray

/-- The text is in the file that the path leads to, and everything else is as it was. -/
structure View.Written (view : View σ κ) (path text : String) (w w' : σ) : Prop where
  holds : view.content w' (view.place w' path) = some text.toUTF8
  others : ∀ file, file ≠ view.place w' path → view.content w' file = view.content w file
  paths : ∀ other, view.place w' other = view.place w other ∨
    view.place w' other = view.place w' path

def Files.textAt (files : Files (StateM σ)) (w : σ) (path : String) : Except FileError String :=
  ((files.readText path).run w).1

structure Files.Lawful (files : Files (StateM σ)) (view : View σ κ) : Prop where
  read : ∀ w path, (files.readText path).run w = (files.textAt w path, w)
  content : ∀ w path text, files.textAt w path = .ok text →
    view.content w (view.place w path) = some text.toUTF8
  write : ∀ w path text, (∃ e, (files.writeText path text).run w = (.error e, w)) ∨
    ∃ w', (files.writeText path text).run w = (.ok (), w') ∧ view.Written path text w w'

theorem run_bind {first : StateM σ α} {next : α → StateM σ β} (h : first.run w = (a, w')) :
    (first >>= next).run w = (next a).run w' := by
  rw [StateT.run_bind, h]
  rfl

namespace FileSystem
open Json (bind_eq_ok)

def place (fs : FileSystem) (path : String) : List String :=
  (names path).foldl move (fs.start path)

def content (fs : FileSystem) (path : List String) : Option ByteArray :=
  match fs.get? path with
  | some (.file content) => some content
  | _ => none

def view : View FileSystem (List String) where
  place := place
  content := content

variable {fs fs' : FileSystem} {target : List String} {e : Entry}

theorem get?_put_self (inner : target ≠ []) : (fs.put target e).get? target = some e := by
  simp [get?, put, inner]

theorem get?_put_of_ne {path : List String} (other : path ≠ target) :
    (fs.put target e).get? path = fs.get? path := by
  have skip : (fs.put target e).entries.find? (fun entry => entry.1 = path) =
      fs.entries.find? fun entry => entry.1 = path := by
    rw [put, List.find?_cons_of_neg (by simp [Ne.symm other]), List.find?_filter]
    congr
    funext entry
    grind
  rw [get?, get?, skip]

theorem written_put {path text : String} (reached : fs.place path = target) (inner : target ≠ []) :
    view.Written path text fs (fs.put target (.file text.toUTF8)) := by
  have here : view.place (fs.put target (.file text.toUTF8)) path = target := reached
  constructor
  · rw [here]
    change content _ _ = _
    rw [content, get?_put_self inner]
  · intro file other
    rw [here] at other
    change content _ _ = content _ _
    rw [content, content, get?_put_of_ne other]
  · exact fun other => .inl rfl

theorem entry_eq_ok {path : List String} : fs.entry path = .ok e ↔ fs.get? path = some e := by
  rw [entry]
  cases fs.get? path <;> simp

theorem guard_eq_ok {c : Prop} [Decidable c] {error : FileError} {next : Except FileError α} :
    (if c then throw error else next) = .ok a ↔ ¬ c ∧ next = .ok a := by
  by_cases h : c <;> simp [h, throw, throwThe, MonadExceptOf.throw]

/-- A walk only decides whether the names lead anywhere, not where. -/
theorem eq_foldl_of_walk {here there names : List String} (h : fs.walk here names = .ok there) :
    there = names.foldl move here := by
  induction names generalizing here with
  | nil => exact (Except.ok.inj h).symm
  | cons name names ih =>
    rw [walk] at h
    obtain ⟨e, -, h⟩ := bind_eq_ok h
    cases e with
    | file content => cases h
    | directory => exact ih (guard_eq_ok.mp h).2

theorem content_of_read {path : String} {bytes : ByteArray} (h : fs.read path = .ok bytes) :
    fs.content (fs.place path) = some bytes := by
  rw [read] at h
  obtain ⟨⟨⟩, -, h⟩ := bind_eq_ok h
  obtain ⟨reached, walked, h⟩ := bind_eq_ok h
  obtain ⟨e, found, h⟩ := bind_eq_ok h
  rw [entry_eq_ok, eq_foldl_of_walk walked, ← place] at found
  cases e with
  | directory => cases h
  | file bytes' =>
    cases h
    rw [content, found]

theorem toUTF8_of_fromUTF8? {bytes : ByteArray} (h : String.fromUTF8? bytes = some text) :
    text.toUTF8 = bytes := by
  rw [String.fromUTF8?] at h
  split at h
  · cases h
    rfl
  · cases h

theorem content_of_readText {path text : String} (h : fs.readText path = .ok text) :
    fs.content (fs.place path) = some text.toUTF8 := by
  rw [readText] at h
  obtain ⟨bytes, hr, h⟩ := bind_eq_ok h
  split at h
  · rename_i decoded
    cases h
    rw [content_of_read hr, toUTF8_of_fromUTF8? decoded]
  · cases h

theorem eq_concat_of_getLast? {names : List String}
    (h : ¬((names.reverse.dropWhile (· = "")).headD "." = "." ∨ names.getLast? = some "")) :
    names = (names.reverse.dropWhile (· = "")).tail.reverse ++
      [(names.reverse.dropWhile (· = "")).headD "."] := by
  rw [← List.head?_reverse] at h
  rw [← List.reverse_inj, List.reverse_append, List.reverse_reverse]
  cases hn : names.reverse with
  | nil => simp [hn] at h
  | cons last rest =>
    have nonempty : last ≠ "" := by simp_all
    simp [nonempty]

theorem written_of_write {path text : String} (h : fs.write path text.toUTF8 = .ok fs') :
    view.Written path text fs fs' := by
  rw [write] at h
  obtain ⟨⟨⟩, -, h⟩ := bind_eq_ok h
  obtain ⟨parent, walked, h⟩ := bind_eq_ok h
  obtain ⟨e, -, h⟩ := bind_eq_ok h
  cases e with
  | file content => cases h
  | directory =>
    obtain ⟨named, h⟩ := guard_eq_ok.mp h
    obtain ⟨-, h⟩ := guard_eq_ok.mp h
    obtain ⟨free, h⟩ := guard_eq_ok.mp h
    cases h
    have split := eq_concat_of_getLast? fun bad => named (bad.imp_right .inr)
    apply written_put
    · refine (congrArg (List.foldl move (fs.start path)) split).trans ?_
      rw [List.foldl_append, ← eq_foldl_of_walk walked]
      rfl
    · intro root
      rw [root] at free
      exact free rfl

theorem files_lawful : files.Lawful view where
  read _ _ := rfl
  content _ _ _ := content_of_readText
  write fs path text := by
    have state : StateT.run (get : StateM FileSystem FileSystem) fs = (fs, fs) := rfl
    rw [files, run_bind state]
    cases h : fs.write path text.toUTF8 with
    | error e => exact .inl ⟨e, rfl⟩
    | ok fs' => exact .inr ⟨fs', rfl, written_of_write h⟩

end FileSystem

end EventScript
