import ColdArchive.Proofs.Disk.Changes

/-!
# Directories that are there, and the files in them

A path that leads to a directory leads there as long as no name is taken away. Making the
directories of such a path asks for nothing, and a file in it is found or made under its name.
-/

namespace ColdArchive

namespace Disk

/-- The steps of the path lead from directory to directory, the last of them being `id`. -/
def Reaches (d : Disk) (p : Path) (id : DirectoryId) : Prop :=
  p.steps.foldlM d.enter (d.start p) = .ok id

/-- The names of the first disk lead where they led on the second. -/
structure Grows (d d' : Disk) : Prop where
  names : ∀ place node, d.find? place = some node → d'.find? place = some node
  directories : d'.directories = d.directories
  home : d'.home = d.home

theorem Grows.trans {d d' d'' : Disk} (h : Grows d d') (h' : Grows d' d'') : Grows d d'' :=
  ⟨fun place node hn => h'.names place node (h.names place node hn),
    h'.directories.trans h.directories, h'.home.trans h.home⟩

theorem Touches.grows {ids : List FileId} {d d' : Disk} (h : Touches ids d d') : Grows d d' :=
  ⟨fun place node hn => by rw [find?, h.tree]; exact hn, h.directories, h.home⟩

/-! ### Walking -/

theorem placeIn_ok {id : DirectoryId} {name : String} {place : Place}
    (h : placeIn id name = .ok place) : place = ⟨id, name⟩ := by
  unfold placeIn at h
  split at h
  · cases h
  · exact (Except.ok.inj h).symm

theorem placeIn_of_le {name : String} (h : (utf8 name).length ≤ nameLimit) (id : DirectoryId) :
    placeIn id name = .ok ⟨id, name⟩ := by
  rw [placeIn, if_neg (Nat.not_lt.mpr h)]

/-- A step that leads into a directory by its name. -/
theorem enter_name {d : Disk} {id next : DirectoryId} {name : String}
    (h : d.enter id (.name name) = .ok next) :
    placeIn id name = .ok ⟨id, name⟩ ∧ d.find? ⟨id, name⟩ = some (.directory next) := by
  cases hp : placeIn id name with
  | error e => simp [enter, hp, error_bind] at h
  | ok place =>
    obtain rfl := placeIn_ok hp
    refine ⟨rfl, ?_⟩
    cases hf : d.find? ⟨id, name⟩ with
    | none => simp [enter, hp, hf, ok_bind, throw, throwThe, MonadExceptOf.throw] at h
    | some node =>
      cases node with
      | directory next' =>
        simp only [enter, hp, ok_bind, hf, pure_eq_ok] at h
        rw [Except.ok.inj h]
      | file f =>
        simp [enter, hp, hf, ok_bind, throw, throwThe, MonadExceptOf.throw] at h

theorem enter_of_grows {d d' : Disk} (h : Grows d d') {id next : DirectoryId} {s : Step}
    (he : d.enter id s = .ok next) : d'.enter id s = .ok next := by
  cases s with
  | here => exact he
  | up =>
    have : d'.parent id = d.parent id := by rw [parent, parent, h.directories]
    rw [enter, this]
    exact he
  | name name =>
    obtain ⟨hp, hf⟩ := enter_name he
    simp only [enter, hp, ok_bind, h.names _ _ hf, pure_eq_ok]

theorem foldlM_enter_of_grows {d d' : Disk} (h : Grows d d') {steps : List Step} :
    ∀ {id last : DirectoryId}, steps.foldlM d.enter id = .ok last →
      steps.foldlM d'.enter id = .ok last := by
  induction steps with
  | nil => exact fun hs => hs
  | cons s steps ih =>
    intro id last hs
    rw [List.foldlM_cons] at hs ⊢
    cases he : d.enter id s with
    | error e => rw [he] at hs; cases hs
    | ok next =>
      rw [he] at hs
      rw [enter_of_grows h he]
      exact ih hs

theorem Reaches.mono {d d' : Disk} {p : Path} {id : DirectoryId} (h : d.Reaches p id)
    (hg : Grows d d') : d'.Reaches p id := by
  have hs : d'.start p = d.start p := by rw [start, start, hg.home]
  rw [Reaches, hs]
  exact foldlM_enter_of_grows hg h

/-! ### Making directories -/

/-- A walk from directory to directory, without the steps that lead nowhere else. -/
theorem foldlM_enter_filter (d : Disk) (steps : List Step) :
    ∀ id, (steps.filter fun s => s ≠ .here).foldlM d.enter id = steps.foldlM d.enter id := by
  induction steps with
  | nil => exact fun _ => rfl
  | cons s steps ih =>
    intro id
    by_cases hs : s = .here
    · subst hs
      rw [List.filter_cons_of_neg (by simp), List.foldlM_cons, ih id]
      rfl
    · rw [List.filter_cons_of_pos (by simpa using hs), List.foldlM_cons, List.foldlM_cons]
      cases d.enter id s with
      | error e => rfl
      | ok next => exact ih next

theorem foldlM_enter_dropLast {d : Disk} {steps : List Step} {id last : DirectoryId}
    (h : steps.foldlM d.enter id = .ok last) :
    ∃ next, steps.dropLast.foldlM d.enter id = .ok next ∧
      ∀ s, steps.getLast? = some s → d.enter next s = .ok last := by
  rcases List.eq_nil_or_concat steps with rfl | ⟨front, s, rfl⟩
  · exact ⟨id, rfl, fun s hs => by cases hs⟩
  · rw [List.concat_eq_append, List.foldlM_append] at h
    rw [List.concat_eq_append, List.dropLast_concat, List.getLast?_concat]
    cases hf : front.foldlM d.enter id with
    | error e => rw [hf] at h; cases h
    | ok next =>
      rw [hf] at h
      refine ⟨next, rfl, ?_⟩
      intro s' hs
      obtain rfl := Option.some.inj hs
      cases he : d.enter next s with
      | error e => simp [he, ok_bind] at h
      | ok last' => simpa [he, ok_bind, pure_eq_ok] using h

theorem ensureWay_of_walk {d : Disk} {made : Bool} {steps : List Step} :
    ∀ {id last : DirectoryId}, steps.foldlM d.enter id = .ok last →
      ensureWay id made steps d = .ok () d := by
  induction steps with
  | nil => exact fun _ => rfl
  | cons s steps ih =>
    intro id last h
    rw [List.foldlM_cons] at h
    cases he : d.enter id s with
    | error e => rw [he] at h; cases h
    | ok next =>
      rw [he] at h
      have rest : ensureWay next made steps d = .ok () d := ih h
      cases s with
      | here =>
        obtain rfl := Except.ok.inj he
        exact rest
      | up =>
        obtain rfl := Except.ok.inj he
        exact rest
      | name name =>
        obtain ⟨hp, hf⟩ := enter_name he
        simp only [ensureWay, hp, attempt, bind_apply, pure_apply, get_apply, hf]
        exact rest

/-- The way to the last part of a path that leads to a directory leads through directories. -/
theorem way_walk {d : Disk} {p : Path} {id : DirectoryId} (h : d.Reaches p id) :
    ∃ next, p.way.foldlM d.enter (d.start p) = .ok next := by
  rw [Reaches, ← foldlM_enter_filter] at h
  obtain ⟨next, hn, -⟩ := foldlM_enter_dropLast h
  refine ⟨next, ?_⟩
  unfold Path.way
  simp only
  split
  · exact hn
  · exact hn

end Disk

namespace Path

theorem way_sublist (p : Path) : p.way.Sublist p.steps := by
  unfold way
  simp only
  split
  · next h =>
    obtain ⟨-, hh, -⟩ := h
    cases hs : p.steps with
    | nil => rw [hs] at hh; cases hh
    | cons s rest =>
      rw [hs, List.head?_cons, Option.some.injEq] at hh
      subst hh
      rw [List.filter_cons_of_neg (by simp)]
      exact ((List.dropLast_sublist _).trans List.filter_sublist).cons_cons Step.here
  · exact (List.dropLast_sublist _).trans List.filter_sublist

theorem hasNul_of_sublist {steps steps' : List Step} (h : steps.Sublist steps')
    (hn : hasNul steps' = false) : hasNul steps = false := by
  rw [hasNul, List.any_eq_false] at hn ⊢
  exact fun s hs => hn s (h.subset hs)

/-! ### The size of a path and of the way to its last part -/

/-- The sum of a measure over a list. -/
def total {α : Type} (f : α → Nat) : List α → Nat
  | [] => 0
  | a :: as => f a + total f as

theorem total_le_of_sublist {α : Type} {f : α → Nat} {as bs : List α} (h : as.Sublist bs) :
    total f as ≤ total f bs := by
  induction h with
  | slnil => exact Nat.le_refl _
  | cons a _ ih => exact Nat.le_trans ih (Nat.le_add_left _ _)
  | cons_cons a _ ih => exact Nat.add_le_add_left ih _

theorem total_map {α β : Type} (f : β → Nat) (g : α → β) (as : List α) :
    total f (as.map g) = total (fun a => f (g a)) as := by
  induction as with
  | nil => rfl
  | cons a as ih => rw [List.map_cons, total, total, ih]

/-- The bytes of a list of characters. -/
def charBytes : List Char → Nat := total Char.utf8Size

theorem length_utf8_ofList (cs : List Char) : (utf8 (String.ofList cs)).length = charBytes cs := by
  rw [utf8_ofList]
  induction cs with
  | nil => rfl
  | cons c cs ih =>
    rw [List.flatMap_cons, List.length_append, String.length_utf8EncodeChar, ih]
    rfl

/-- Every piece of a text with the slash behind it: one slash more than the text has. -/
theorem total_pieces (cs : List Char) :
    total (fun p => charBytes p + 1) (pieces cs) = charBytes cs + 1 := by
  induction cs with
  | nil => rfl
  | cons c cs ih =>
    rw [pieces]
    split
    · next hp => exact absurd hp (pieces_ne_nil cs)
    · next p ps hp =>
      rw [hp] at ih
      simp only [total] at ih
      split
      · next hc =>
        subst hc
        simp only [total, charBytes] at ih ⊢
        have : Char.utf8Size '/' = 1 := by decide
        omega
      · simp only [total, charBytes] at ih ⊢
        omega

/-- A text that begins with a slash has an empty piece before it. -/
theorem pieces_of_slash {cs : List Char} (h : cs.head? = some '/') :
    ∃ ps, pieces cs = [] :: ps := by
  cases cs with
  | nil => cases h
  | cons c cs =>
    obtain rfl := Option.some.inj h
    rw [pieces]
    split
    · next hp => exact absurd hp (pieces_ne_nil cs)
    · next p ps hp => exact ⟨p :: ps, rfl⟩

theorem size_ofText (s : String) : (Step.ofText s).size = (utf8 s).length := by
  unfold Step.ofText Step.size
  split
  · simp [Step.text, *]
  · split
    · simp [Step.text, *]
    · rfl

/-- The names of a path with a slash behind each take the bytes of the path, and one more if the
path does not begin with a slash. -/
theorem total_steps_ofText (s : String) :
    total (fun t => t.size + 1) (ofText s).steps
      ≤ (ofText s).size + (if (ofText s).rooted then 0 else 1) := by
  have hs : (ofText s).size = charBytes s.toList := by
    rw [← length_utf8_ofList, String.ofList_toList]
    rfl
  have hp := total_pieces s.toList
  have hf : total (fun t => t.size + 1) (ofText s).steps
      = total (fun p => charBytes p + 1) ((pieces s.toList).filter fun p => p ≠ []) := by
    simp only [ofText, total_map, size_ofText, length_utf8_ofList]
  rw [hf, hs]
  have hr : (ofText s).rooted = decide (s.toList.head? = some '/') := rfl
  by_cases h : s.toList.head? = some '/'
  · obtain ⟨ps, hps⟩ := pieces_of_slash h
    rw [hps] at hp
    rw [hr, decide_eq_true h, hps, List.filter_cons_of_neg (by simp)]
    have := total_le_of_sublist (f := fun p => charBytes p + 1)
      (List.filter_sublist (p := fun p => p ≠ []) (l := ps))
    simp only [total, charBytes] at hp this ⊢
    simp only [if_true]
    omega
  · rw [hr, decide_eq_false h]
    have := total_le_of_sublist (f := fun p => charBytes p + 1)
      (List.filter_sublist (p := fun p => p ≠ []) (l := pieces s.toList))
    simp only [Bool.false_eq_true, if_false]
    omega

theorem foldl_size (steps : List Step) (n : Nat) :
    steps.foldl (fun n s => n + s.size + 1) n = n + total (fun t => t.size + 1) steps := by
  induction steps generalizing n with
  | nil => rfl
  | cons s steps ih =>
    rw [List.foldl_cons, ih, total]
    omega

/-- The way to the last part of a path is no longer than the path. -/
theorem waySize_ofText (s : String) : (ofText s).waySize ≤ (ofText s).size := by
  have h := total_steps_ofText s
  have hw := total_le_of_sublist (f := fun t : Step => t.size + 1) (way_sublist (ofText s))
  rw [waySize, foldl_size]
  split at h <;> simp_all <;> omega

end Path

namespace Disk

/-! ### A directory that is there already -/

/-- A name that is a step of its own and not too long. -/
def IsFileName (name : String) : Prop :=
  Step.ofText name = .name name ∧ (utf8 name).length ≤ nameLimit

instance (name : String) : Decidable (IsFileName name) := inferInstanceAs (Decidable (_ ∧ _))

theorem refusal_of_child {p : Path} {name : String} (h : (p.child name).refusal? = none) :
    Path.hasNul p.steps = false ∧ p.size ≤ pathLimit := by
  unfold Path.refusal? at h
  split at h
  · cases h
  · next hn =>
    have hn : Path.hasNul (p.child name).steps = false := Bool.eq_false_iff.mpr hn
    refine ⟨Path.hasNul_of_sublist (List.sublist_append_left _ _) hn, ?_⟩
    split at h
    · cases h
    · split at h
      · cases h
      · next hl =>
        simp only [Path.child] at hl
        omega

theorem ensureDirectory_of_reaches {d : Disk} {p : Path} {id : DirectoryId} (h : d.Reaches p id)
    (hr : p.refusal? = none) : ensureDirectory p d = .ok () d := by
  obtain ⟨next, hn, hl⟩ := foldlM_enter_dropLast h
  simp only [ensureDirectory, bind_apply, get_apply, locate, hr, hn, ok_bind]
  cases hs : p.steps.getLast? with
  | none => rfl
  | some s =>
    have he := hl s hs
    cases s with
    | here => simp only [he]; rfl
    | up => simp only [he]; rfl
    | name name =>
      obtain ⟨hp, hf⟩ := enter_name he
      simp only [hp, ok_bind, pure_eq_ok, attempt, pure_apply, bind_apply, get_apply, hf]

/-- **To make a directory that is there asks for nothing.** -/
theorem makeDirectories_of_reaches {d : Disk} {directory name : String} {id : DirectoryId}
    (h : d.Reaches (Path.ofText directory) id)
    (hr : ((Path.ofText directory).child name).refusal? = none) :
    makeDirectories (Path.ofText directory) d = .ok () d := by
  obtain ⟨hn, hsz⟩ := refusal_of_child hr
  unfold makeDirectories
  by_cases he : (Path.ofText directory).isEmpty = true
  · rw [if_pos he]
    rfl
  · have hself : (Path.ofText directory).refusal? = none := by
      rw [Path.refusal?, if_neg (by simp [hn]), if_neg he, if_neg (by omega)]
    have hway : makeWay (Path.ofText directory) d = .ok () d := by
      obtain ⟨next, hw⟩ := way_walk h
      have hwn := Path.hasNul_of_sublist (Path.way_sublist _) hn
      have hws := Path.waySize_ofText directory
      simp only [makeWay, hwn, Bool.false_eq_true, if_false, bind_apply,
        if_neg (show ¬ pathLimit < (Path.ofText directory).waySize by omega), get_apply]
      exact ensureWay_of_walk hw
    simp only [if_neg he, hself, bind_apply, hway]
    exact ensureDirectory_of_reaches h hself

/-! ### Files in a directory -/

theorem locate_child {d : Disk} {p : Path} {id : DirectoryId} {name : String}
    (h : d.Reaches p id) (hn : IsFileName name) (hr : (p.child name).refusal? = none) :
    d.locate (p.child name) = .ok (.entry ⟨id, name⟩ false) := by
  have hsteps : (p.child name).steps = p.steps ++ [.name name] := by rw [Path.child, hn.1]
  have hstart : d.start (p.child name) = d.start p := rfl
  have hslash : (p.child name).slash = false := rfl
  have hw : p.steps.foldlM d.enter (d.start p) = .ok id := h
  simp only [locate, hr, hsteps, List.dropLast_concat, List.getLast?_concat, hstart, hw, hslash,
    ok_bind, placeIn_of_le hn.2, pure_eq_ok]

theorem openFile_of_found {d : Disk} {p : Path} {id : DirectoryId} {name : String} {f : FileId}
    (h : d.Reaches p id) (hn : IsFileName name) (hr : (p.child name).refusal? = none)
    (hf : d.find? ⟨id, name⟩ = some (.file f)) : openFile (p.child name) d = .ok f d := by
  simp only [openFile, bind_apply, get_apply, vacancy, locate_child h hn hr, ok_bind, hf,
    pure_eq_ok, Bool.false_eq_true, if_false, attempt, pure_apply]

/-- The disk with a new empty file at a place. -/
def withNew (d : Disk) (place : Place) : Disk :=
  { d.asked with
    contents := d.contents ++ [.empty]
    tree := (place, .file d.contents.length) :: d.tree }

theorem find?_withNew (d : Disk) (place other : Place) :
    (d.withNew place).find? other =
      if other = place then some (.file d.contents.length) else d.find? other := by
  simp only [find?, withNew, asked, List.lookup_cons]
  by_cases h : other = place
  · simp [h]
  · have : (other == place) = false := by simp [h]
    simp [h, this]

theorem grows_withNew {d : Disk} {place : Place} (h : d.find? place = none) :
    Grows d (d.withNew place) := by
  refine ⟨?_, rfl, rfl⟩
  intro other node hn
  rw [find?_withNew, if_neg]
  · exact hn
  · rintro rfl
    rw [h] at hn
    cases hn

theorem bytes_withNew {d : Disk} {place : Place} {f : FileId} (h : f < d.contents.length) :
    (d.withNew place).bytes f = d.bytes f := by
  simp [bytes, content, withNew, asked, List.getD_eq_getElem?_getD, List.getElem?_append_left h]

theorem bytes_withNew_self (d : Disk) (place : Place) :
    (d.withNew place).bytes d.contents.length = [] := by
  simp [bytes, content, withNew, asked, List.getD_eq_getElem?_getD, Content.toBytes]

end Disk

end ColdArchive
