import Singletons.Proofs.Files
import Singletons.Proofs.Settings.Layers

/-
Settings that were saved, loaded again. Loading comes to the settings that were saved, but for a separator that
is left out: it has no line in the document, so it has its default again. And there are settings whose document
cannot be read (`Readable`).
-/

namespace Singletons.Settings

open Layer

/-! ## What is loaded from a file -/

theorem ofEnvironment_eq {start : String} {environment : List (String × String)}
    (h : ∀ v ∈ environment, ofVariable start v.1 v.2 = none) : ofEnvironment start environment = .fields [] := by
  rw [ofEnvironment, List.filterMap_eq_nil_iff.2 h]
  rfl

/-- With no variable set, loading from a file makes of the defaults what its document makes of them. -/
theorem Loader.value_load {l : Loader} {sur : Surroundings} {path text : String} (hpath : l.path = some path)
    (hholds : sur.files.holds path = true) (htext : sur.files.textAt? path = some text)
    (henvironment : ∀ v ∈ sur.environment, ofVariable (l.envPrefix ++ "__") v.1 v.2 = none) :
    (l.load sur).value = match Settings.read? text with
      | none => .error (.configuration .unreadable none)
      | some s => s.validate.map fun _ => s := by
  have hchosen : l.chosenLayer? sur = ((Toml.parse? text).bind ofDocument?, [.settingsLoaded path]) := by
    rw [Loader.chosenLayer?, hpath]
    dsimp only
    rw [if_pos hholds, Loader.fileLayer?, htext]
  simp only [Loader.load, hchosen, Settings.read?]
  cases (Toml.parse? text).bind ofDocument? with
  | none => rfl
  | some file =>
    simp only [Option.bind_some, Loader.combine, ofEnvironment_eq henvironment]
    cases ((Layer.fields []).onto (file.onto (toLayer {}))).settings? with
    | none => rfl
    | some s =>
      dsimp only
      cases s.validate <;> rfl

/-! ## What was saved -/

variable {s : Settings} {f f' : Files} {path : String}

theorem validate_restored (h : s.validate = .ok ()) : s.restored.validate = .ok () := by
  obtain ⟨policy, logging, ⟨opening, closing, separator, lenient, properties⟩, aliases⟩ := s
  cases separator with
  | some t => exact h
  | none =>
    unfold validate at h ⊢
    split at h
    · cases h
    · rename_i hlogging
      dsimp only [restored]
      rw [hlogging]
      exact h

theorem restored_eq_self : s.restored = s ↔ s.placeholders.separator ≠ none := by
  obtain ⟨policy, logging, ⟨opening, closing, separator, lenient, properties⟩, aliases⟩ := s
  cases separator <;> simp [restored, separated]

theorem write_of_save (h : s.save f path = .ok f') : f.write path s.toDocument = .ok f' := by
  unfold save at h
  split at h
  · rename_i heq; cases h; exact heq
  · cases h

variable {l : Loader} (sur : Surroundings)

theorem value_load_save (hsave : s.save f path = .ok f') (hpath : l.path = some path)
    (henvironment : ∀ v ∈ sur.environment, ofVariable (l.envPrefix ++ "__") v.1 v.2 = none) :
    (l.load { sur with files := f' }).value = match read? s.toDocument with
      | none => .error (.configuration .unreadable none)
      | some s => s.validate.map fun _ => s := by
  have hwrite := write_of_save hsave
  exact Loader.value_load hpath (Files.holds_of_write hwrite) (Files.textAt?_of_write hwrite) henvironment

theorem load_of_readable (hread : s.Readable) (hvalid : s.validate = .ok ()) (hsave : s.save f path = .ok f')
    (hpath : l.path = some path)
    (henvironment : ∀ v ∈ sur.environment, ofVariable (l.envPrefix ++ "__") v.1 v.2 = none) :
    (l.load { sur with files := f' }).value = .ok s.restored := by
  rw [value_load_save sur hsave hpath henvironment, hread.read?]
  dsimp only
  rw [validate_restored hvalid]
  rfl

theorem load_of_not_readable (hread : ¬ s.Readable) (hsave : s.save f path = .ok f') (hpath : l.path = some path)
    (henvironment : ∀ v ∈ sur.environment, ofVariable (l.envPrefix ++ "__") v.1 v.2 = none) :
    (l.load { sur with files := f' }).value = .error (.configuration .unreadable none) := by
  rw [value_load_save sur hsave hpath henvironment, read?_of_not_readable s hread]

/-- Loading valid settings that were saved, with no variable set: a document that can be read is loaded, with the
default in the place of a separator that is left out, and any other one is refused. So the same settings come
back exactly if their document can be read and they have a separator. -/
theorem load_save (hvalid : s.validate = .ok ()) (hsave : s.save f path = .ok f') (hpath : l.path = some path)
    (henvironment : ∀ v ∈ sur.environment, ofVariable (l.envPrefix ++ "__") v.1 v.2 = none) :
    (s.Readable → (l.load { sur with files := f' }).value = .ok s.restored) ∧
      (¬ s.Readable → (l.load { sur with files := f' }).value = .error (.configuration .unreadable none)) ∧
      ((l.load { sur with files := f' }).value = .ok s ↔ s.Readable ∧ s.placeholders.separator ≠ none) := by
  have hreadable := fun hread => load_of_readable sur hread hvalid hsave hpath henvironment
  have hunreadable := fun hread => load_of_not_readable sur hread hsave hpath henvironment
  refine ⟨hreadable, hunreadable, ?_⟩
  by_cases hread : s.Readable
  · rw [hreadable hread, Except.ok.injEq, restored_eq_self]
    exact (and_iff_right hread).symm
  · rw [hunreadable hread]
    constructor
    · rintro ⟨⟩
    · exact fun h => absurd h.1 hread

/-! ## Settings that come back, and settings that do not -/

theorem write_usualPlace (text : String) :
    ({} : Files).write "ioc.toml" text = .ok (({} : Files).putText ["ioc.toml"] text) := by
  have hparts : "ioc.toml".splitOn "/" = ["ioc.toml"] := by
    rw [String.splitOn, if_neg (by decide)]
    iterate 8 rw [String.splitOnAux, if_neg (by decide), if_neg (by decide)]
    rw [String.splitOnAux, if_pos (by decide)]
    decide
  have hstart : Route.start "ioc.toml" = [] := if_neg (by simp)
  have hfind : ({} : Files).find .toWrite "ioc.toml" = .ok (.vacant ["ioc.toml"]) := by
    rw [Files.find, if_neg (by decide), if_neg (by decide), if_neg (by decide), hparts, hstart]
    rfl
  rw [Files.write, hfind]

theorem save_usualPlace (s : Settings) :
    s.save {} "ioc.toml" = .ok (({} : Files).putText ["ioc.toml"] s.toDocument) := by
  rw [save, write_usualPlace]

/-- Settings with something of their own in every part. -/
def everything : Settings where
  policy := { overrideAliases := false, reopen := true }
  logging := { level := "Debug", json := true, file := some "logs/\"all\".log", maxFiles := 7 }
  placeholders :=
    { opening := "#[", closing := "]", separator := some "|", lenient := true,
      properties := (Directory.empty.insert "user name" "a\nb").insert "host" "it's" }
  aliases := [⟨"service", "svc"⟩, ⟨"svc", "#[host]"⟩]

theorem load_save_everything : ∃ f, everything.save {} "ioc.toml" = .ok f ∧
    (Loader.load { path := some "ioc.toml" } { files := f }).value = .ok everything := by
  have hsave := save_usualPlace everything
  have hread : everything.Readable := ⟨by decide, by decide, by decide⟩
  obtain ⟨-, -, hload⟩ :=
    load_save (l := { path := some "ioc.toml" }) {} rfl hsave rfl fun _ hv => nomatch hv
  exact ⟨_, hsave, hload.2 ⟨hread, by decide⟩⟩

/-- Settings in which nothing separates a key from a default. -/
def unseparated : Settings := { placeholders := { separator := none } }

theorem unseparated_not_restored : unseparated.validate = .ok () ∧ ∃ f, unseparated.save {} "ioc.toml" = .ok f ∧
    (Loader.load { path := some "ioc.toml" } { files := f }).value ≠ .ok unseparated := by
  have hsave := save_usualPlace unseparated
  have hread : unseparated.Readable := ⟨by decide, by decide, by decide⟩
  have hload := load_of_readable (l := { path := some "ioc.toml" }) {} hread rfl hsave rfl
    fun _ hv => nomatch hv
  refine ⟨rfl, _, hsave, fun hsame => ?_⟩
  have hrestored : unseparated.restored = unseparated := Except.ok.inj (hload.symm.trans hsame)
  exact absurd hrestored (by decide)

end Singletons.Settings
