import Mathlib.Logic.Relation
import ColdArchive.Proofs.Files.Canonical
import ColdArchive.Proofs.Files.Locking

/-!
# One handle at a time

Any number of handles are opened on one directory, worked with, closed and dropped in any order,
while others do with the disk what they like as long as they leave the lock alone. The lock is held
as often as there are handles with open tables, and nobody takes it twice (`Sharing.Exclusive`), so
that there is one such handle at most.
-/

namespace ColdArchive

open FileArchive (lockName MeantBy LeadsTo)

/-- The handles that were opened on a directory, and their disk. A handle that was dropped leaves
its place empty. -/
structure Sharing where
  handles : List (Option FileArchive)
  disk : Disk

namespace Sharing

/-- A handle is opened, unless that is refused. -/
def openAt (s : Sharing) (directory : String) : Sharing :=
  match FileArchive.openAt directory s.disk with
  | .ok a d => ⟨s.handles ++ [some a], d⟩
  | .error _ d => { s with disk := d }

/-- Work is asked of a handle, unless it was dropped. -/
def ask (s : Sharing) (n : Nat) (work : Work) : Sharing :=
  match s.handles[n]? with
  | some (some a) =>
    ⟨s.handles.set n (some (FileArchive.ask (a, s.disk) work).1),
      (FileArchive.ask (a, s.disk) work).2⟩
  | _ => s

/-- A handle is dropped, with what it has in hand. -/
def drop (s : Sharing) (n : Nat) : Sharing :=
  match s.handles[n]? with
  | some (some a) => ⟨s.handles.set n none, (a.release s.disk).2⟩
  | _ => s

/-- What happens to the handles of a directory and to the disk they share. -/
inductive Step (id : DirectoryId) : Sharing → Sharing → Prop where
  | opened {s : Sharing} {directory : String} (h : MeantBy id s.disk directory) :
      Step id s (s.openAt directory)
  | asked (s : Sharing) (n : Nat) (work : Work) : Step id s (s.ask n work)
  | dropped (s : Sharing) (n : Nat) : Step id s (s.drop n)
  /-- Somebody else was at work, and left the lock alone. -/
  | outside {s : Sharing} {d : Disk} (h : Disk.LeavesLock ⟨id, lockName⟩ s.disk d) :
      Step id s { s with disk := d }

/-- What happens in any number of steps. -/
abbrev Runs (id : DirectoryId) : Sharing → Sharing → Prop := Relation.ReflTransGen (Step id)

/-- Some handle has its tables open. -/
def InUse (s : Sharing) : Prop :=
  ∃ (n : Nat) (a : FileArchive), s.handles[n]? = some (some a) ∧ a.opened ≠ none

/-- An opening that succeeds is one of the steps. -/
theorem Step.of_ok {id : DirectoryId} {s : Sharing} {directory : String} {a : FileArchive}
    {d : Disk} (h : MeantBy id s.disk directory)
    (ho : FileArchive.openAt directory s.disk = .ok a d) :
    Step id s ⟨s.handles ++ [some a], d⟩ := by
  have hstep := Step.opened h
  simp only [Sharing.openAt, ho] at hstep
  exact hstep

/-! ### The locks in hand -/

/-- The files whose locks the handles hold. -/
def inHand (s : Sharing) : List FileId := s.handles.filterMap fun h => h.bind FileArchive.lock?

section InHand

variable {s : Sharing} {n m : Nat} {h? : Option FileArchive} {f : FileId}

/-- The locks in hand, with those of one place in the middle. -/
theorem inHand_set (hn : s.handles[n]? = some h?) :
    ∃ front back, s.inHand = front ++ (h?.bind FileArchive.lock?).toList ++ back ∧
      ∀ g? d, inHand ⟨s.handles.set n g?, d⟩ =
        front ++ (g?.bind FileArchive.lock?).toList ++ back := by
  have hlt : n < s.handles.length := (List.getElem?_eq_some_iff.mp hn).1
  have one : ∀ g? : Option FileArchive, [g?].filterMap (fun h => h.bind FileArchive.lock?) =
      (g?.bind FileArchive.lock?).toList := by
    intro g?
    cases hg : g?.bind FileArchive.lock? <;> simp [hg]
  have split : ∀ g? d, inHand ⟨s.handles.set n g?, d⟩ =
      (s.handles.take n).filterMap (fun h => h.bind FileArchive.lock?) ++
        (g?.bind FileArchive.lock?).toList ++
        (s.handles.drop (n + 1)).filterMap (fun h => h.bind FileArchive.lock?) := by
    intro g? d
    rw [inHand, List.set_eq_take_append_cons_drop, if_pos hlt, List.filterMap_append,
      ← List.singleton_append, List.filterMap_append, one, List.append_assoc]
  refine ⟨_, _, ?_, split⟩
  have hself : s.handles.set n h? = s.handles := by
    obtain ⟨_, rfl⟩ := List.getElem?_eq_some_iff.mp hn
    exact List.set_getElem_self hlt
  rw [← split h? s.disk, hself]

theorem mem_inHand (hn : s.handles[n]? = some h?) (hf : h?.bind FileArchive.lock? = some f) :
    f ∈ s.inHand :=
  List.mem_filterMap.mpr ⟨h?, List.mem_of_getElem? hn, hf⟩

/-- Some lock is in hand exactly if some handle has its tables open. -/
theorem inHand_ne_nil : s.inHand ≠ [] ↔ s.InUse := by
  constructor
  · intro hne
    obtain ⟨f, hf⟩ := List.exists_mem_of_ne_nil _ hne
    obtain ⟨h?, hm, hf⟩ := List.mem_filterMap.mp hf
    obtain ⟨a, rfl, ha⟩ := Option.bind_eq_some_iff.mp hf
    obtain ⟨n, hn⟩ := List.mem_iff_getElem?.mp hm
    obtain ⟨o, ho, -⟩ := FileArchive.opened_of_lock? ha
    exact ⟨n, a, hn, by simp [ho]⟩
  · rintro ⟨n, a, hn, ha⟩
    obtain ⟨o, ho⟩ := Option.ne_none_iff_exists'.mp ha
    exact List.ne_nil_of_mem (mem_inHand hn (FileArchive.lock?_of_opened ho))

/-- Two handles with open tables have two locks in hand. -/
theorem two_le_inHand {a b : FileArchive} (hn : s.handles[n]? = some (some a))
    (hm : s.handles[m]? = some (some b)) (ha : a.opened ≠ none) (hb : b.opened ≠ none)
    (hne : n ≠ m) : 2 ≤ s.inHand.length := by
  obtain ⟨front, back, hs, hset⟩ := inHand_set hn
  obtain ⟨o, ho⟩ := Option.ne_none_iff_exists'.mp ha
  have rest : inHand ⟨s.handles.set n none, s.disk⟩ ≠ [] := by
    refine inHand_ne_nil.mpr ⟨m, b, ?_, hb⟩
    rw [List.getElem?_set_ne hne]
    exact hm
  have hrest := List.length_pos_iff.mpr rest
  rw [hset] at hrest
  rw [hs, Option.bind_some, FileArchive.lock?_of_opened ho]
  simp only [Option.bind_none, Option.toList, List.length_append, List.length_nil,
    List.length_singleton] at hrest ⊢
  omega

end InHand

/-! ### What a step preserves -/

/-- The lock is held by the handle that has its tables open, once, and by nobody if there is no such
handle. -/
structure Exclusive (id : DirectoryId) (s : Sharing) : Prop where
  proper : s.disk.Proper
  lock : ∀ f ∈ s.inHand, s.disk.find? ⟨id, lockName⟩ = some (.file f)
  holders : s.disk.holders ⟨id, lockName⟩ = s.inHand.length
  one : s.inHand.length ≤ 1

section Steps

variable {id : DirectoryId} {s s' : Sharing} {n : Nat} {a : FileArchive} {d : Disk}
  {directory : String}

/-- Before the first opening. -/
theorem exclusive_start (hd : d.Proper) (free : d.holders ⟨id, lockName⟩ = 0) :
    Exclusive id ⟨[], d⟩ :=
  ⟨hd, fun _ hf => absurd hf List.not_mem_nil, free, Nat.zero_le _⟩

/-- The lock is left alone, and with who holds it. -/
theorem Exclusive.of_leavesLock (h : Exclusive id s)
    (hl : Disk.LeavesLock ⟨id, lockName⟩ s.disk s'.disk) (hs : s'.inHand = s.inHand) :
    Exclusive id s' := by
  refine ⟨hl.proper, ?_, ?_, ?_⟩
  · intro f hf
    rw [hs] at hf
    exact hl.file f (h.lock f hf)
  · rw [hl.holders, h.holders, hs]
  · rw [hs]
    exact h.one

/-- A handle is changed and holds what it held. -/
theorem Exclusive.put (h : Exclusive id s) (hn : s.handles[n]? = some (some a))
    {h? : Option FileArchive} (hl : Disk.LeavesLock ⟨id, lockName⟩ s.disk d)
    (hh : h?.bind FileArchive.lock? = a.lock?) : Exclusive id ⟨s.handles.set n h?, d⟩ := by
  obtain ⟨front, back, hs, hset⟩ := inHand_set hn
  refine h.of_leavesLock hl ?_
  rw [hset, hs, hh, Option.bind_some]

/-- The lock of an open handle is the only one in hand. -/
theorem Exclusive.inHand_of_opened (h : Exclusive id s) {o : OpenTables}
    (hn : s.handles[n]? = some (some a)) (ho : a.opened = some o) :
    s.inHand = [o.lock] ∧ ∀ h? d, inHand ⟨s.handles.set n h?, d⟩ =
      (h?.bind FileArchive.lock?).toList := by
  obtain ⟨front, back, hs, hset⟩ := inHand_set hn
  have hone := h.one
  rw [Option.bind_some, FileArchive.lock?_of_opened ho] at hs
  rw [hs] at hone
  simp only [Option.toList, List.length_append, List.length_singleton] at hone
  obtain rfl : front = [] := List.length_eq_zero_iff.mp (by omega)
  obtain rfl : back = [] := List.length_eq_zero_iff.mp (by omega)
  refine ⟨hs, fun h? d => ?_⟩
  rw [hset, List.nil_append, List.append_nil]

/-- **A handle that lets go of its tables leaves nobody with the lock.** -/
theorem Exclusive.release (h : Exclusive id s) (hn : s.handles[n]? = some (some a))
    {h? : Option FileArchive} (hh : h?.bind FileArchive.lock? = none) :
    Exclusive id ⟨s.handles.set n h?, (a.release s.disk).2⟩ := by
  cases ho : a.opened with
  | none =>
    rw [FileArchive.release_of_closed ho]
    exact h.put hn (.refl h.proper) (hh.trans (FileArchive.lock?_of_closed ho).symm)
  | some o =>
    obtain ⟨hs, hset⟩ := h.inHand_of_opened hn ho
    have hlock := h.lock o.lock (mem_inHand hn (FileArchive.lock?_of_opened ho))
    have hnone : ∀ d, inHand ⟨s.handles.set n h?, d⟩ = [] := by
      intro d
      rw [hset, hh]
      rfl
    rw [FileArchive.release_of_opened ho]
    refine ⟨h.proper.erase o.lock, ?_, ?_, ?_⟩
    · rw [hnone]
      exact fun f hf => absurd hf List.not_mem_nil
    · rw [hnone, Disk.holders_erase hlock, h.holders, hs]
      rfl
    · rw [hnone]
      exact Nat.zero_le _

theorem Exclusive.ask (h : Exclusive id s) (n : Nat) (work : Work) :
    Exclusive id (s.ask n work) := by
  unfold Sharing.ask
  split
  · next a hn =>
    cases work with
    | repair =>
      obtain ⟨hleft, hlock⟩ := FileArchive.leavesLock_work FileM.sparesLock_repair h.proper
      exact h.put hn hleft hlock
    | call now ctx call =>
      by_cases hc : call = .close
      · subst hc
        exact h.release hn (FileArchive.lock?_of_closed (FileArchive.opened_release a s.disk))
      · obtain ⟨hleft, hlock⟩ := FileArchive.leavesLock_perform hc h.proper
        exact h.put hn hleft hlock
  · exact h

theorem Exclusive.drop (h : Exclusive id s) (n : Nat) : Exclusive id (s.drop n) := by
  unfold Sharing.drop
  split
  · next a hn => exact h.release hn rfl
  · exact h

/-- **An opening takes the lock if nobody has it**, and leaves it alone otherwise. -/
theorem Exclusive.openAt (h : Exclusive id s) (hm : MeantBy id s.disk directory) :
    Exclusive id (s.openAt directory) := by
  have hends := FileArchive.openAt_ends h.proper hm
  unfold Sharing.openAt
  generalize FileArchive.openAt directory s.disk = r at hends
  cases hends with
  | @opened a d f free hand file held proper =>
    have hnone : s.inHand = [] := List.length_eq_zero_iff.mp (h.holders.symm.trans free)
    have hone : inHand ⟨s.handles ++ [some a], d⟩ = [f] := by
      rw [inHand, List.filterMap_append, show s.handles.filterMap _ = [] from hnone]
      simp [hand]
    refine ⟨proper, ?_, ?_, ?_⟩
    · rw [hone]
      intro g hg
      rw [List.mem_singleton.mp hg]
      exact file
    · rw [hone]
      exact held
    · rw [hone]
      exact Nat.le_refl _
  | locked held left => exact h.of_leavesLock left rfl
  | failed cause left => exact h.of_leavesLock left rfl

/-- **What one step preserves.** -/
theorem Exclusive.step (h : Exclusive id s) (hs : Step id s s') : Exclusive id s' := by
  cases hs with
  | opened hm => exact h.openAt hm
  | asked n work => exact h.ask n work
  | dropped n => exact h.drop n
  | outside hl => exact h.of_leavesLock hl rfl

/-- **What a run preserves.** -/
theorem Exclusive.run (h : Exclusive id s) (hs : Runs id s s') : Exclusive id s' := by
  induction hs with
  | refl => exact h
  | tail _ hstep ih => exact ih.step hstep

/-! ### Openings -/

theorem Exclusive.openAt_of_inUse (h : Exclusive id s) (hu : s.InUse)
    (hl : LeadsTo id s.disk directory) :
    ∃ d, FileArchive.openAt directory s.disk = .error (.locked directory) d ∧
      Disk.Furnishes s.disk d ∧
      (s.disk.Reaches (Path.ofText directory) id → d = s.disk) := by
  obtain ⟨f, hf⟩ := List.exists_mem_of_ne_nil _ (inHand_ne_nil.mpr hu)
  have hfile := h.lock f hf
  refine FileArchive.openAt_of_held hl hfile (List.count_pos_iff.mp ?_)
  rw [← Disk.holders_of_file hfile, h.holders]
  exact List.length_pos_of_mem hf

/-- An opening that fails while no tables are open is not refused for the lock, and the lock is left
free. -/
theorem Exclusive.openAt_of_not_inUse (h : Exclusive id s) (hu : ¬ s.InUse)
    (hm : MeantBy id s.disk directory) {e : StoreError}
    (ho : FileArchive.openAt directory s.disk = .error e d) :
    (∀ other, e ≠ .locked other) ∧ Exclusive id { s with disk := d } := by
  have hfree : s.disk.holders ⟨id, lockName⟩ = 0 := by
    rw [h.holders, List.length_eq_zero_iff]
    exact Decidable.byContradiction fun hne => hu (inHand_ne_nil.mp hne)
  have hends := FileArchive.openAt_ends h.proper hm
  rw [ho] at hends
  cases hends with
  | locked held left => exact absurd hfree held
  | failed cause left =>
    refine ⟨?_, h.of_leavesLock left rfl⟩
    rintro other rfl
    exact cause

end Steps

/-! ### Closed handles -/

/-- The handle is closed or was dropped since. -/
def Retired (n : Nat) (a : FileArchive) (s : Sharing) : Prop :=
  a.opened = none ∧ (s.handles[n]? = some (some a) ∨ s.handles[n]? = some none)

section Retired

variable {id : DirectoryId} {s s' : Sharing} {n : Nat} {a : FileArchive} {d : Disk}

theorem ask_of_closed (ho : a.opened = none) (d : Disk) (work : Work) :
    FileArchive.ask (a, d) work = (a, d) := by
  cases work with
  | call now ctx call => exact FileArchive.perform_of_none ho d now ctx call
  | repair => simp only [FileArchive.ask, FileArchive.repair, FileArchive.work_of_closed ho]

/-- **Nothing that is asked of a handle has an effect once it is closed.** -/
theorem Retired.ask (h : Retired n a s) (work : Work) : s.ask n work = s := by
  obtain ⟨ho, hn | hn⟩ := h
  · obtain ⟨hlt, hself⟩ := List.getElem?_eq_some_iff.mp hn
    simp only [Sharing.ask, hn, ask_of_closed ho]
    rw [← hself, List.set_getElem_self hlt]
  · simp only [Sharing.ask, hn]

theorem Retired.drop (h : Retired n a s) : (s.drop n).disk = s.disk := by
  obtain ⟨ho, hn | hn⟩ := h
  · simp only [Sharing.drop, hn, FileArchive.release_of_closed ho]
  · simp only [Sharing.drop, hn]

/-- A handle stays as it is while another one is changed. -/
theorem Retired.set (h : Retired n a s) {m : Nat} (hne : m ≠ n) (h? : Option FileArchive) :
    Retired n a ⟨s.handles.set m h?, d⟩ := by
  refine ⟨h.1, ?_⟩
  rw [List.getElem?_set_ne hne]
  exact h.2

theorem Retired.step (h : Retired n a s) (hs : Step id s s') : Retired n a s' := by
  cases hs with
  | outside hl => exact h
  | opened hm =>
    have hlt : n < s.handles.length := by
      rcases h.2 with hn | hn <;> exact (List.getElem?_eq_some_iff.mp hn).1
    unfold Sharing.openAt
    split
    · refine ⟨h.1, ?_⟩
      rw [List.getElem?_append_left hlt]
      exact h.2
    · exact h
  | asked m work =>
    by_cases hne : m = n
    · subst hne
      rw [h.ask]
      exact h
    · unfold Sharing.ask
      split
      · exact h.set hne _
      · exact h
  | dropped m =>
    by_cases hne : m = n
    · subst hne
      unfold Sharing.drop
      split
      · next b hn =>
        refine ⟨h.1, .inr ?_⟩
        rw [List.getElem?_set_self (List.getElem?_eq_some_iff.mp hn).1]
      · exact h
    · unfold Sharing.drop
      split
      · exact h.set hne _
      · exact h

theorem Retired.run (h : Retired n a s) (hs : Runs id s s') : Retired n a s' := by
  induction hs with
  | refl => exact h
  | tail _ hstep ih => exact ih.step hstep

/-- A handle is retired by a close. -/
theorem retired_of_close (hn : s.handles[n]? = some (some a)) (now : Instant) (ctx : Context) :
    Retired n (a.release s.disk).1 (s.ask n (.call now ctx .close)) := by
  refine ⟨FileArchive.opened_release a s.disk, .inl ?_⟩
  simp only [Sharing.ask, hn]
  rw [List.getElem?_set_self (List.getElem?_eq_some_iff.mp hn).1]
  rfl

end Retired

/-- **A directory has one user at most.** Whatever is done with any number of handles on it, one of
them at most has its tables open. While one has, an opening is refused as locked and changes no
file. An opening that fails for another cause leaves the directory to the next one, and a handle
that was closed has no effect any more. -/
theorem one_user {id : DirectoryId} {d : Disk} {s : Sharing} (hd : d.Proper)
    (free : d.holders ⟨id, lockName⟩ = 0) (h : Runs id ⟨[], d⟩ s) :
    (∀ (n m : Nat) (a b : FileArchive), s.handles[n]? = some (some a) →
      s.handles[m]? = some (some b) → a.opened ≠ none → b.opened ≠ none → n = m) ∧
    (s.InUse → ∀ directory, LeadsTo id s.disk directory →
      ∃ d', FileArchive.openAt directory s.disk = .error (.locked directory) d' ∧
        d'.contents = s.disk.contents ∧ (∀ place, d'.read? place = s.disk.read? place) ∧
        (s.disk.Reaches (Path.ofText directory) id → d' = s.disk)) ∧
    (¬ s.InUse → ∀ directory e d', MeantBy id s.disk directory →
      FileArchive.openAt directory s.disk = .error e d' →
      (∀ other, e ≠ .locked other) ∧
      ∀ directory' other d'', MeantBy id d' directory' →
        FileArchive.openAt directory' d' ≠ .error (.locked other) d'') ∧
    ∀ (n : Nat) (a : FileArchive) now ctx s', s.handles[n]? = some (some a) →
      Runs id (s.ask n (.call now ctx .close)) s' →
      (∀ work, s'.ask n work = s') ∧ (s'.drop n).disk = s'.disk ∧
      ∀ b : FileArchive, s'.handles[n]? = some (some b) →
        (b.repair s'.disk).1 = .error .closed ∧
        ∀ now ctx call, ctx.IsLive now → (b.perform s'.disk now ctx call).1 =
          if call = .close then .ok .done else .error .closed := by
  have hex : Exclusive id s := (exclusive_start hd free).run h
  refine ⟨?_, ?_, ?_, ?_⟩
  · intro n m a b hn hm ha hb
    by_cases hnm : n = m
    · exact hnm
    · have htwo := two_le_inHand hn hm ha hb hnm
      have hone := hex.one
      omega
  · intro hu directory hl
    obtain ⟨d', hopen, hsame, hreach⟩ := hex.openAt_of_inUse hu hl
    exact ⟨d', hopen, hsame.contents, hsame.read?, hreach⟩
  · intro hu directory e d' hm hopen
    obtain ⟨hcause, hex'⟩ := hex.openAt_of_not_inUse hu hm hopen
    refine ⟨hcause, ?_⟩
    intro directory' other d'' hm' hopen'
    exact (hex'.openAt_of_not_inUse hu hm' hopen').1 other rfl
  · intro n a now ctx s' hn hrun
    have hret := (retired_of_close hn now ctx).run hrun
    refine ⟨hret.ask, hret.drop, ?_⟩
    intro b hb
    have hclosed : b.opened = none := by
      rcases hret.2 with hn | hn
      · cases hb.symm.trans hn
        exact hret.1
      · cases hb.symm.trans hn
    constructor
    · simp only [FileArchive.repair, FileArchive.work_of_closed hclosed]
    · intro now ctx call hlive
      exact congrArg Prod.fst (FileArchive.isClosed_of_opened hclosed now ctx call hlive)

/-- The directory was opened again after a close. The first handle has no effect any more, and a
third opening is refused. -/
theorem one_user_of_reopened :
    ∃ a b d, Runs 0 ⟨[], Disk.empty.limited 16⟩ ⟨[some a, some b], d⟩ ∧
      a.opened = none ∧ b.opened ≠ none ∧
      (∀ work, ask ⟨[some a, some b], d⟩ 0 work = ⟨[some a, some b], d⟩) ∧
      ∃ d', FileArchive.openAt "." d = .error (.locked ".") d' ∧ d'.contents = d.contents := by
  have vacant : FileArchive.Vacant "." 0 (Disk.empty.limited 16) :=
    FileArchive.vacant_emptyDisk.withFaults _
  have reports : (Disk.empty.limited 16).faults.Reports := FaultPlan.reports_capped _
  have obliging : (Disk.empty.limited 16).faults.Obliging := FaultPlan.obliging_capped _
  have bounded : (Disk.empty.limited 16).faults.Bounded :=
    FaultPlan.bounded_capped (Nat.min_le_right _ _)
  have proper : (Disk.empty.limited 16).Proper :=
    ⟨fun _ _ hf => (by cases hf), fun _ hf => absurd hf List.not_mem_nil, reports⟩
  have free := Disk.holders_of_none (vacant.vacant lockName)
  obtain ⟨a, d, hopen, hhas, htended⟩ := vacant.opens_empty reports obliging
  have htidy : FileArchive.Tidy 0 a d [] := by
    refine .of_has hhas (htended.faults ▸ bounded) (fun c => ?_) vacant.bare htended
    rw [columns, ByCategory.get_ofFn]
    exact Nat.zero_le _
  have hclosed := FileArchive.opened_release a d
  have hdir : (a.release d).1.directory = "." := by
    rw [FileArchive.directory_release, FileArchive.directory_of_openAt hopen]
  obtain ⟨b, d₂, hopen₂, htidy₂, hb⟩ := htidy.release.opens hclosed
  rw [hdir] at hopen₂
  have allowed := vacant.allowed lockName FileArchive.lockName_mem
  have reaches : (a.release d).2.Reaches (Path.ofText ".") 0 := by
    rcases htidy.release.handle with ⟨o, hs, -⟩ | ⟨-, hfree⟩
    · cases hclosed.symm.trans hs.opened
    · exact hdir ▸ hfree.shelf.reaches
  have reaches₂ : d₂.Reaches (Path.ofText ".") 0 := by
    rcases htidy₂.handle with ⟨o, hs, -⟩ | ⟨hnone, -⟩
    · exact FileArchive.directory_of_openAt hopen₂ ▸ hs.shelf.reaches
    · exact absurd hnone hb
  have first : Step 0 ⟨[], Disk.empty.limited 16⟩ ⟨[some a], d⟩ :=
    .of_ok (FileArchive.meantBy_of_reaches vacant.reaches allowed) hopen
  have second : Step 0 ⟨[some a], d⟩ ⟨[some (a.release d).1], (a.release d).2⟩ :=
    .asked ⟨[some a], d⟩ 0 (.call 0 .background .close)
  have third : Step 0 ⟨[some (a.release d).1], (a.release d).2⟩
      ⟨[some (a.release d).1, some b], d₂⟩ :=
    .of_ok (FileArchive.meantBy_of_reaches reaches allowed) hopen₂
  have run : Runs 0 ⟨[], Disk.empty.limited 16⟩ ⟨[some (a.release d).1, some b], d₂⟩ :=
    ((Relation.ReflTransGen.single first).tail second).tail third
  obtain ⟨-, -, -, retired⟩ := one_user proper free (.single first)
  obtain ⟨hask, -⟩ := retired 0 a 0 .background _ rfl (.single third)
  obtain ⟨-, used, -⟩ := one_user proper free run
  obtain ⟨d₃, hrefused, hcontents, -⟩ :=
    used ⟨1, b, rfl, hb⟩ "." (FileArchive.leadsTo_of_reaches reaches₂ allowed)
  exact ⟨_, b, d₂, run, hclosed, hb, hask, d₃, hrefused, hcontents⟩

end Sharing

end ColdArchive
