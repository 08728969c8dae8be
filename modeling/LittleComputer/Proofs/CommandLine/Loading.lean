import Mathlib
import LittleComputer.CommandLine.Session
import LittleComputer.Proofs.CommandLine.Directory
import LittleComputer.Proofs.Image.Loading
import LittleComputer.Proofs.Word.Hexadecimal

/-! What becomes of the images that are named on the command line. They are loaded one over the
other, and the first that cannot be loaded ends the session before anything is run. -/
namespace LittleComputer.CommandLine

/-- A text without characters has no bytes. -/
theorem toUTF8_empty : "".toUTF8.toList = [] := by cbv

section
variable {φ : Type} [FileSystem φ]

/-- A path names a file with an image. -/
def Holds (files : φ) (path : String) (image : Image) : Prop :=
  ∃ bytes, FileSystem.read files path = .ok bytes ∧ Image.ofBytes bytes = .ok image

/-- Each path names a file with an image, and these are the images. -/
def Loads (files : φ) : List String → List Image → Prop := List.Forall₂ (Holds files)

/-- What is said of a path that names no file with an image. -/
inductive Refused (files : φ) (path : String) : String → Prop
  | unreadable {why : String} (unread : FileSystem.read files path = .error why) :
      Refused files path ("cannot read " ++ path ++ ": " ++ why)
  | noOrigin {bytes : List Byte} (found : FileSystem.read files path = .ok bytes)
      (cut : Image.ofBytes bytes = .error .missingOrigin) :
      Refused files path "image has no origin word"
  | midWord {bytes : List Byte} {count : Nat} (found : FileSystem.read files path = .ok bytes)
      (cut : Image.ofBytes bytes = .error (.truncated count)) :
      Refused files path ("image ends mid-word (" ++ count.repr ++ " bytes)")
  | pastTheEnd {bytes : List Byte} {origin : Word} {count : Nat}
      (found : FileSystem.read files path = .ok bytes)
      (excess : Image.ofBytes bytes = .error (.tooLarge origin count)) :
      Refused files path (count.repr ++ " words at origin 0x" ++ hexDigits origin ++
        " run past the end of memory")
  | overTheKeyboard {bytes : List Byte} {origin : Word} {count : Nat}
      (found : FileSystem.read files path = .ok bytes)
      (clash : Image.ofBytes bytes = .error (.coversKeyboard origin count)) :
      Refused files path (count.repr ++ " words at origin 0x" ++ hexDigits origin ++
        " cover the keyboard device registers")

variable {files : φ} {paths before after : List String} {images : List Image}
  {first path why : String} {image : Image}

theorem imageAt_eq_ok : imageAt (FileSystem.read files) path = .ok image ↔
    Holds files path image := by
  rw [imageAt, Holds]
  cases FileSystem.read files path with
  | error why => exact ⟨nofun, nofun⟩
  | ok bytes =>
    cases parsed : Image.ofBytes bytes with
    | error e => simp [parsed, Except.mapError]
    | ok image' => simp [parsed, Except.mapError]

theorem refused_of_imageAt (h : imageAt (FileSystem.read files) path = .error why) :
    Refused files path why := by
  rw [imageAt] at h
  cases found : FileSystem.read files path with
  | error e =>
    rw [found] at h
    cases h
    exact .unreadable found
  | ok bytes =>
    simp only [found] at h
    cases parsed : Image.ofBytes bytes with
    | ok image => simp [parsed, Except.mapError] at h
    | error e =>
      simp only [parsed, Except.mapError, Except.error.injEq] at h
      subst h
      cases e with
      | missingOrigin => exact .noOrigin found parsed
      | truncated count => exact .midWord found parsed
      | tooLarge origin count =>
        have refused := Refused.pastTheEnd found parsed
        rwa [← hex_four] at refused
      | coversKeyboard origin count =>
        have refused := Refused.overTheKeyboard found parsed
        rwa [← hex_four] at refused

theorem exists_images (h : ∀ path ∈ paths, ∃ image, Holds files path image) :
    ∃ images, Loads files paths images := by
  induction paths with
  | nil => exact ⟨[], .nil⟩
  | cons path paths ih =>
    obtain ⟨image, holds⟩ := h path List.mem_cons_self
    obtain ⟨images, rest⟩ := ih (List.forall_mem_of_forall_mem_cons h)
    exact ⟨image :: images, .cons holds rest⟩

/-- Among paths that do not all name images there is a first that does not. -/
theorem exists_first_failure (h : ∃ path ∈ paths, ¬ ∃ image, Holds files path image) :
    ∃ before first after why, paths = before ++ first :: after ∧
      (∀ path ∈ before, ∃ image, Holds files path image) ∧
      imageAt (FileSystem.read files) first = .error why := by
  induction paths with
  | nil =>
    obtain ⟨path, none, -⟩ := h
    cases none
  | cons path paths ih =>
    cases found : imageAt (FileSystem.read files) path with
    | error why => exact ⟨[], path, paths, why, rfl, List.forall_mem_nil _, found⟩
    | ok image =>
      have holds := imageAt_eq_ok.1 found
      obtain ⟨bad, named, none⟩ := h
      have later : bad ∈ paths := by
        rcases List.mem_cons.1 named with rfl | later
        · exact absurd ⟨image, holds⟩ none
        · exact later
      obtain ⟨before, first, after, why, rfl, loads, failed⟩ := ih ⟨bad, later, none⟩
      exact ⟨path :: before, first, after, why, rfl,
        List.forall_mem_cons.2 ⟨⟨image, holds⟩, loads⟩, failed⟩

theorem loadAll_of_loads (h : Loads files paths images) (m : Machine) :
    loadAll (FileSystem.read files) m paths = .ok (images.foldl Machine.loadImage m) := by
  induction h generalizing m with
  | nil => rfl
  | cons holds _ ih =>
    rw [loadAll, imageAt_eq_ok.2 holds]
    exact ih _

/-- What is said of the first image that cannot be loaded. -/
def loadFailure (path why : String) : Report :=
  ⟨.notLoaded, "", "failed to load image: " ++ path ++ ": " ++ why ++ "\n"⟩

/-- What has been loaded before it makes no difference. -/
theorem loadAll_of_first_failure (loads : ∀ path ∈ before, ∃ image, Holds files path image)
    (failed : imageAt (FileSystem.read files) first = .error why) (after : List String)
    (m : Machine) : loadAll (FileSystem.read files) m (before ++ first :: after) =
      .error (loadFailure first why) := by
  induction before generalizing m with
  | nil =>
    rw [List.nil_append, loadAll, failed]
    rfl
  | cons path before ih =>
    obtain ⟨image, holds⟩ := loads path List.mem_cons_self
    rw [List.cons_append, loadAll, imageAt_eq_ok.2 holds]
    exact ih (List.forall_mem_of_forall_mem_cons loads) _

end

/-- A machine as it is switched on, with the images in its memory. -/
structure PoweredOn (images : List Image) (m : Machine) : Prop where
  pc : m.regs.pc = 0x3000
  gpr : ∀ r, m.regs.get r = 0
  cond : m.regs.cond = .zro
  state : m.state = .running
  cycles : m.cycles = 0
  /-- The last image that covers an address decides its word. -/
  covered : ∀ before i after (a : Word), images = before ++ i :: after → a.toNat ∈ i.range →
    (∀ j ∈ after, a.toNat ∉ j.range) → i.words[a.toNat - i.origin.toNat]? = some (m.mem.peek a)
  uncovered : ∀ a : Word, (∀ i ∈ images, a.toNat ∉ i.range) → m.mem.peek a = 0

theorem poweredOn (images : List Image) :
    PoweredOn images (images.foldl Machine.loadImage .initial) := by
  rw [Machine.loadImages_eq]
  constructor
  case pc | cond | state | cycles => rfl
  case gpr => exact fun r => by simp [Machine.initial, Registers.initial, Registers.get, Vector.get]
  case covered =>
    rintro before i after a rfl covers last
    exact Machine.peek_loadImages_of_last covers last before .initial
  case uncovered =>
    intro a clear
    rw [Machine.peek_loadImages_of_notMem clear]
    exact Memory.peek_empty a

section
variable {φ : Type} [FileSystem φ] {args : List String} {o : Options}
  (parsed : Options.ofArguments args = .ok o) {files : φ}
include parsed

theorem sessionOn_of_unloaded {r : Report}
    (h : loadAll (FileSystem.read files) .initial o.images = .error r)
    (run : Options → Machine → Keyboard → Option Finish) (keyboard : Keyboard) :
    sessionOn run args files keyboard =
      some ⟨r.status, r.stdout.toUTF8.toList, r.stderr, files, keyboard⟩ := by
  simp only [sessionOn, parsed, h]

theorem sessionOn_of_loaded {m : Machine}
    (h : loadAll (FileSystem.read files) .initial o.images = .ok m)
    (run : Options → Machine → Keyboard → Option Finish) (keyboard : Keyboard) :
    sessionOn run args files keyboard = (run o m keyboard).map (finished o files) := by
  simp only [sessionOn, parsed, h]

end

/-- Whatever the options are: if some image cannot be loaded, the session ends with the error of the
first such one. It does not depend on how a machine would run, and the keyboard is not read. If all
can be loaded, what is run is a machine as it is switched on with the images over each other, on all
that the keyboard has. -/
theorem loading_all_or_nothing {φ : Type} [FileSystem φ] {args : List String} {o : Options}
    (parsed : Options.ofArguments args = .ok o) (files : φ) :
    ((∃ path ∈ o.images, ¬ ∃ image, Holds files path image) →
      ∃ before first after why, o.images = before ++ first :: after ∧
        (∀ path ∈ before, ∃ image, Holds files path image) ∧
        (¬ ∃ image, Holds files first image) ∧ Refused files first why ∧
        ∀ keyboard, ∃ t, session? args files keyboard = some t ∧
          (∀ run, sessionOn run args files keyboard = some t) ∧
          t.status.code = 1 ∧ t.stdout = [] ∧ t.files = files ∧ t.unread = keyboard ∧
          t.stderr = "failed to load image: " ++ first ++ ": " ++ why ++ "\n") ∧
    ((∀ path ∈ o.images, ∃ image, Holds files path image) →
      ∃ images m, Loads files o.images images ∧ PoweredOn images m ∧
        (∀ bytes, session? args files (.piped bytes) =
          (Machine.runWatched? Console.Stream.console.beside o.maxCycles (lister o) #[]
            (m, ⟨{ reads := bytes.map .byte }, false⟩)).map fun ending =>
              finished o files (.ofEnding (·.output) (fun c => .piped c.unread) ending)) ∧
        ∀ plan, session? args files (.typed plan) =
          (Machine.runWatched? Console.Typist.console o.maxCycles (lister o) #[]
            (m, ⟨.start plan, false⟩)).map fun ending =>
              finished o files
                (.ofEnding (·.terminal.output) (fun c => .typed c.unread) ending)) := by
  constructor
  · intro some_fail
    obtain ⟨before, first, after, why, split, loads, failed⟩ := exists_first_failure some_fail
    have unloaded : loadAll (FileSystem.read files) .initial o.images =
        .error (loadFailure first why) := by
      rw [split]
      exact loadAll_of_first_failure loads failed after _
    have none : ¬ ∃ image, Holds files first image := by
      rintro ⟨image, holds⟩
      cases failed.symm.trans (imageAt_eq_ok.2 holds)
    refine ⟨before, first, after, why, split, loads, none, refused_of_imageAt failed, ?_⟩
    intro keyboard
    have ends := fun run => sessionOn_of_unloaded parsed unloaded run keyboard
    exact ⟨_, ends _, ends, rfl, toUTF8_empty, rfl, rfl, rfl⟩
  · intro all_load
    obtain ⟨images, loads⟩ := exists_images all_load
    have runs := sessionOn_of_loaded parsed (loadAll_of_loads loads .initial) execute?
    refine ⟨images, _, loads, poweredOn images, fun bytes => ?_, fun plan => ?_⟩
    · rw [session?, runs, execute?, Option.map_map]
      rfl
    · rw [session?, runs, execute?, Option.map_map]
      rfl

/-- Two images, the second of which is cut short in one directory and whole in another. -/
theorem loading_all_or_nothing_of_two_images :
    let args := ["-m", "5", "a.obj", "b.obj", "--dump-state", "out.json"]
    let o : Options := ⟨["a.obj", "b.obj"], some 5, false, some "out.json"⟩
    let halting : List Byte := [0x30, 0x00, 0xF0, 0x25]
    let spoiled : Directory := ⟨[(["a.obj"], .file halting), (["b.obj"], .file [0x30])]⟩
    let sound : Directory := ⟨[(["a.obj"], .file halting), (["b.obj"], .file halting)]⟩
    (∀ keyboard, ∃ t, session? args spoiled keyboard = some t ∧ t.status.code = 1 ∧
        t.unread = keyboard ∧
        t.stderr = "failed to load image: b.obj: image has no origin word\n") ∧
      ∃ images m, Loads sound o.images images ∧ PoweredOn images m ∧
        ∀ bytes, (session? args sound (.piped bytes)).isSome =
          (Machine.runWatched? Console.Stream.console.beside (some 5) (lister o) #[]
            (m, ⟨{ reads := bytes.map .byte }, false⟩)).isSome := by
  intro args o halting spoiled sound
  have parsed : Options.ofArguments args = .ok o := by cbv
  let image : Image := ⟨0x3000, [0xF025], by decide, rfl, rfl⟩
  have holds {files : Directory} {path : String} (h : files.read path = .ok halting) :
      ∃ image, Holds files path image :=
    ⟨image, halting, Directory.read_of_eq_ok h, rfl⟩
  have cut : FileSystem.read spoiled "b.obj" = .ok [0x30] :=
    Directory.read_of_eq_ok (by cbv)
  have fails : ¬ ∃ image, Holds spoiled "b.obj" image := by
    rintro ⟨image, bytes, found, whole⟩
    cases cut.symm.trans found
    cases whole
  obtain ⟨refuses, -⟩ := loading_all_or_nothing parsed spoiled
  obtain ⟨-, runs⟩ := loading_all_or_nothing parsed sound
  constructor
  · obtain ⟨before, first, after, why, split, -, none, refused, ends⟩ :=
      refuses ⟨"b.obj", List.mem_cons_of_mem _ List.mem_cons_self, fails⟩
    have named : first ∈ o.images := by
      rw [split]
      exact List.mem_append_right _ List.mem_cons_self
    have second : first = "b.obj" := by
      rcases List.mem_pair.1 named with rfl | second
      · exact absurd (holds (by cbv)) none
      · exact second
    subst second
    have told : why = "image has no origin word" := by
      cases refused with
      | noOrigin => rfl
      | unreadable unread => cases cut.symm.trans unread
      | midWord found verdict | pastTheEnd found verdict | overTheKeyboard found verdict =>
        cases cut.symm.trans found
        cases verdict
    subst told
    intro keyboard
    obtain ⟨t, said, -, code, -, -, unread, stderr⟩ := ends keyboard
    exact ⟨t, said, code, unread, stderr⟩
  · have first : sound.read "a.obj" = .ok halting := by cbv
    have second : sound.read "b.obj" = .ok halting := by cbv
    obtain ⟨images, m, loads, powered, piped, -⟩ := runs (by simp [o, holds first, holds second])
    refine ⟨images, m, loads, powered, fun bytes => ?_⟩
    rw [piped, Option.isSome_map]

end LittleComputer.CommandLine
