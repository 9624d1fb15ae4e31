import ColdArchive.Proofs.Frame
import ColdArchive.Proofs.Json.Lines
import ColdArchive.Proofs.Remote.Interleaving

/-!
# Idle connections are at rest

However the calls on a transport are interleaved and wherever they are cut off, nothing is on its
way on an idle connection, no connection is in two hands, and a call that gets a response gets the
one to its own request (`Traffic.Orderly`).
-/

namespace ColdArchive

/-- What is on its way on a connection. -/
structure InFlight where
  /-- What has come from the peer and was not read, unless the connection was let go. -/
  box : Option Bytes
  unanswered : List (Nat × UInt8)
  coming : Bytes

/-- Nothing is on its way, and the connection was not let go. -/
def InFlight.none : InFlight := ⟨some [], [], []⟩

namespace Traffic

/-- What is on its way on a connection of a number. -/
def inFlight (s : Traffic) (id : Nat) : InFlight :=
  ⟨s.transport.wire.box? id, s.unanswered id, s.coming id⟩

/-- A call was answered, and this is the response. -/
def AnsweredWith [Json.Wording] (answers : List AnsweredLine) (n : Nat) (r : Request)
    (response : Response) : Prop :=
  ∃ a ∈ answers, a.call = n ∧ a.line = r.encode ∧ Response.decode a.text = .ok response

/-- What is on its way on the connection of a call fits its phase. -/
inductive Holds [Json.Wording] (answers : List AnsweredLine) (inFlight : Nat → InFlight) (n : Nat)
    (r : Request) : Phase → Prop where
  | called : Holds answers inFlight n r .called
  | admitted : Holds answers inFlight n r .admitted
  /-- The peer has some of the request, or all of it, and has not answered. -/
  | asking {id : Nat} {left : Bytes} (written : Bytes) (hline : written ++ left = Frame.encode r.encode)
      (hflight : inFlight id = ⟨some [], written.map fun b => (n, b), []⟩) :
      Holds answers inFlight n r (.exchanging id left)
  /-- The peer has answered, and some of the answer has come, or all of it. -/
  | hearing {id : Nat} {left : Bytes} (a : AnsweredLine) (box coming : Bytes) (hleft : left = [])
      (ha : a ∈ answers) (hcall : a.call = n) (hline : a.line = r.encode)
      (hpayload : Frame.newline ∉ a.payload) (hwhole : box ++ coming = Frame.encode a.payload)
      (hflight : inFlight id = ⟨some box, [], coming⟩) :
      Holds answers inFlight n r (.exchanging id left)
  | answered {id : Nat} {response : Response} (h : AnsweredWith answers n r response)
      (hflight : inFlight id = .none) : Holds answers inFlight n r (.answered id response)
  | returning {id : Nat} {response : Response} (h : AnsweredWith answers n r response)
      (hflight : inFlight id = .none) : Holds answers inFlight n r (.returning id response)
  | succeeded {response : Response} (h : AnsweredWith answers n r response) :
      Holds answers inFlight n r (.done (.ok response))
  | failed (e : StoreError) : Holds answers inFlight n r (.done (.error e))

/-- The pool and the calls keep to their connections, and what is on its way fits them. -/
structure Orderly [Json.Wording] (s : Traffic) : Prop where
  room : s.idle.length ≤ s.transport.pool.maxIdle
  nodup : s.idle.Nodup
  idle_lt : ∀ id ∈ s.idle, id < s.dialed
  used_lt : ∀ n id, s.Uses n id → id < s.dialed
  free : ∀ n id, s.Uses n id → id ∉ s.idle
  one : ∀ n m id, s.Uses n id → s.Uses m id → n = m
  atRest : ∀ id ∈ s.idle, s.inFlight id = .none
  fresh : ∀ id, s.dialed ≤ id → s.unanswered id = [] ∧ s.coming id = []
  holds : ∀ n r phase, s.At n r phase → Holds s.answers s.inFlight n r phase
  carries : ∀ a ∈ s.answers, a.CarriesId

/-! ### What a call holds -/

section Holding

variable [Json.Wording] {answers answers' : List AnsweredLine} {inFlight inFlight' : Nat → InFlight}
  {n : Nat} {r : Request} {phase : Phase}

theorem AnsweredWith.mono {response : Response} (h : AnsweredWith answers n r response)
    (hanswers : answers ⊆ answers') : AnsweredWith answers' n r response := by
  obtain ⟨a, ha, hrest⟩ := h
  exact ⟨a, hanswers ha, hrest⟩

/-- A call depends on its own connection only. -/
theorem Holds.congr (h : Holds answers inFlight n r phase) (hanswers : answers ⊆ answers')
    (hflight : ∀ id, phase.connection? = some id → inFlight' id = inFlight id) :
    Holds answers' inFlight' n r phase := by
  cases h with
  | called => exact .called
  | admitted => exact .admitted
  | asking written hline hf => exact .asking written hline ((hflight _ rfl).trans hf)
  | hearing a box coming hleft ha hcall hline hpayload hwhole hf =>
    exact .hearing a box coming hleft (hanswers ha) hcall hline hpayload hwhole
      ((hflight _ rfl).trans hf)
  | answered h hf => exact .answered (h.mono hanswers) ((hflight _ rfl).trans hf)
  | returning h hf => exact .returning (h.mono hanswers) ((hflight _ rfl).trans hf)
  | succeeded h => exact .succeeded (h.mono hanswers)
  | failed e => exact .failed e

end Holding

/-! ### Steps of calls -/

section Calls

variable {s s' : Traffic} {n : Nat} {r : Request} {phase phase' : Phase}

theorem at_of_set (hcalls : s'.calls = s.calls.set n (r, phase')) {m : Nat} {r' : Request}
    {phase'' : Phase} (h : s'.At m r' phase'') :
    (m = n ∧ r' = r ∧ phase'' = phase') ∨ (m ≠ n ∧ s.At m r' phase'') := by
  unfold At at h ⊢
  rw [hcalls, List.getElem?_set] at h
  by_cases hm : n = m
  · rw [if_pos hm] at h
    split at h
    · cases h
      exact .inl ⟨hm.symm, rfl, rfl⟩
    · cases h
  · rw [if_neg hm] at h
    exact .inr ⟨Ne.symm hm, h⟩

theorem uses_of_set (hcalls : s'.calls = s.calls.set n (r, phase')) {m id : Nat}
    (h : s'.Uses m id) : (m = n ∧ phase'.connection? = some id) ∨ (m ≠ n ∧ s.Uses m id) := by
  obtain ⟨r', phase'', hat, hc⟩ := h
  rcases at_of_set hcalls hat with ⟨rfl, rfl, rfl⟩ | ⟨hne, hat⟩
  · exact .inl ⟨rfl, hc⟩
  · exact .inr ⟨hne, r', phase'', hat, hc⟩

/-- A connection that is let go is out of the way of the others. -/
theorem inFlight_discard (now : Instant) {id id' : Nat} (hne : id' ≠ id)
    {t : StreamTransport Unit} :
    (s.put n r phase' (t.discard now id)).inFlight id' = (s.put n r phase' t).inFlight id' := by
  simp only [inFlight, put, StreamTransport.discard, Wire.box?_hangUp, if_neg hne]

variable [Json.Wording]

/-- A call goes on and touches nothing but its own connection, which it may take from the pool or
make before and give back after. -/
theorem Orderly.act (ho : Orderly s) (hat : s.At n r phase)
    (hcalls : s'.calls = s.calls.set n (r, phase')) (hanswers : s'.answers = s.answers)
    (hroom : s'.idle.length ≤ s'.transport.pool.maxIdle) (hnodup : s'.idle.Nodup)
    (hidle : ∀ id ∈ s'.idle, id ∈ s.idle ∨ (phase.connection? = some id ∧ s'.inFlight id = .none))
    (hdialed : s.dialed ≤ s'.dialed)
    (hconn : ∀ id, phase'.connection? = some id → id ∉ s'.idle ∧ id < s'.dialed ∧
      (phase.connection? = some id ∨ id ∈ s.idle ∨ s.dialed ≤ id))
    (helse : ∀ id < s.dialed, phase.connection? ≠ some id → s'.inFlight id = s.inFlight id)
    (hfresh : ∀ id, s'.dialed ≤ id → s'.unanswered id = [] ∧ s'.coming id = [])
    (hholds : Holds s'.answers s'.inFlight n r phase') : Orderly s' := by
  have own : ∀ id, phase.connection? = some id → s.Uses n id := fun id hc => ⟨r, phase, hat, hc⟩
  have others : ∀ m id, m ≠ n → s.Uses m id → phase.connection? ≠ some id := fun m id hne hm hc =>
    hne (ho.one m n id hm (own id hc))
  refine ⟨hroom, hnodup, ?_, ?_, ?_, ?_, ?_, hfresh, ?_, ?_⟩
  · intro id hid
    rcases hidle id hid with hid | ⟨hc, -⟩
    · exact Nat.lt_of_lt_of_le (ho.idle_lt id hid) hdialed
    · exact Nat.lt_of_lt_of_le (ho.used_lt n id (own id hc)) hdialed
  · intro m id hm
    rcases uses_of_set hcalls hm with ⟨rfl, hc⟩ | ⟨-, hm⟩
    · exact (hconn id hc).2.1
    · exact Nat.lt_of_lt_of_le (ho.used_lt m id hm) hdialed
  · intro m id hm hid
    rcases uses_of_set hcalls hm with ⟨rfl, hc⟩ | ⟨hne, hm⟩
    · exact (hconn id hc).1 hid
    · rcases hidle id hid with hid | ⟨hc, -⟩
      · exact ho.free m id hm hid
      · exact others m id hne hm hc
  · have apart : ∀ m id, m ≠ n → s.Uses m id → phase'.connection? ≠ some id := by
      intro m id hne hm hc
      rcases (hconn id hc).2.2 with hc | hid | hid
      · exact others m id hne hm hc
      · exact ho.free m id hm hid
      · exact Nat.not_lt.mpr hid (ho.used_lt m id hm)
    intro m m' id hm hm'
    rcases uses_of_set hcalls hm with ⟨rfl, hc⟩ | ⟨hne, hm⟩ <;>
      rcases uses_of_set hcalls hm' with ⟨rfl, hc'⟩ | ⟨hne', hm'⟩
    · rfl
    · exact absurd hc (apart m' id hne' hm')
    · exact absurd hc' (apart m id hne hm)
    · exact ho.one m m' id hm hm'
  · intro id hid
    rcases hidle id hid with hid | ⟨-, hrest⟩
    · have hc : phase.connection? ≠ some id := fun hc => ho.free n id (own id hc) hid
      rw [helse id (ho.idle_lt id hid) hc, ho.atRest id hid]
    · exact hrest
  · intro m r' phase'' hm
    rcases at_of_set hcalls hm with ⟨rfl, rfl, rfl⟩ | ⟨hne, hm⟩
    · exact hholds
    · rw [hanswers]
      refine (ho.holds m r' phase'' hm).congr (fun _ ha => ha) fun id hc => ?_
      have huses : s.Uses m id := ⟨r', phase'', hm, hc⟩
      exact helse id (ho.used_lt m id huses) (others m id hne huses)
  · rw [hanswers]
    exact ho.carries

/-- A call goes on with the connection that it has, or lets it go, and the pool stays as it is. -/
theorem Orderly.keep (ho : Orderly s) (hat : s.At n r phase)
    (hcalls : s'.calls = s.calls.set n (r, phase')) (hanswers : s'.answers = s.answers)
    (hidle : s'.idle = s.idle)
    (hlimit : s'.transport.pool.maxIdle = s.transport.pool.maxIdle) (hdialed : s'.dialed = s.dialed)
    (hconn : ∀ id, phase'.connection? = some id → phase.connection? = some id)
    (helse : ∀ id, phase.connection? ≠ some id → s'.inFlight id = s.inFlight id)
    (hholds : Holds s'.answers s'.inFlight n r phase') : Orderly s' := by
  have own : ∀ id, phase.connection? = some id → s.Uses n id := fun id hc => ⟨r, phase, hat, hc⟩
  refine ho.act hat hcalls hanswers ?_ ?_ ?_ (Nat.le_of_eq hdialed.symm) ?_
    (fun id _ => helse id) ?_ hholds
  · rw [hidle, hlimit]
    exact ho.room
  · rw [hidle]
    exact ho.nodup
  · rw [hidle]
    exact fun id hid => .inl hid
  · intro id hc
    have huses := own id (hconn id hc)
    rw [hidle, hdialed]
    exact ⟨ho.free n id huses, ho.used_lt n id huses, .inl (hconn id hc)⟩
  · intro id hid
    rw [hdialed] at hid
    have hc : phase.connection? ≠ some id := fun hc =>
      Nat.not_lt.mpr hid (ho.used_lt n id (own id hc))
    have hflight := helse id hc
    obtain ⟨hun, hcoming⟩ := ho.fresh id hid
    exact ⟨(congrArg InFlight.unanswered hflight).trans hun,
      (congrArg InFlight.coming hflight).trans hcoming⟩

theorem Orderly.enters (ho : Orderly s) (hat : s.At n r .called) :
    Orderly (s.put n r .admitted s.transport) :=
  ho.keep hat rfl rfl rfl rfl rfl (fun _ hc => hc) (fun _ _ => rfl) .admitted

/-- **A connection is taken that nobody has**, from the pool or a new one. -/
theorem Orderly.takes {now : Instant} {id : Nat} {t : StreamTransport Unit} (ho : Orderly s)
    (hat : s.At n r .admitted) (hout : s.transport.checkOut now = (.ok id, t)) :
    Orderly (s.put n r (.exchanging id (Frame.encode r.encode)) t) := by
  obtain ⟨hlimit, ⟨hidle, hwire⟩ | ⟨hpool, hnone, hid, hdialed, hbox⟩⟩ :=
    StreamTransport.checkOut_cases hout
  · have hsame : t.wire.dialed = s.dialed := congrArg Wire.dialed hwire
    have hflight : (s.put n r (.exchanging id (Frame.encode r.encode)) t).inFlight =
        s.inFlight := by
      funext id'
      simp only [inFlight, put, hwire]
    have hnodup : id ∉ t.pool.idle ∧ t.pool.idle.Nodup := List.nodup_cons.mp (hidle ▸ ho.nodup)
    have hroom : t.pool.idle.length + 1 ≤ t.pool.maxIdle := by
      simpa [idle, hidle, hlimit] using ho.room
    have hmem : id ∈ s.idle := by simp [idle, hidle]
    refine ho.act hat rfl rfl (Nat.le_of_succ_le hroom) hnodup.2 ?_ (Nat.le_of_eq hsame.symm) ?_
      (fun id' _ _ => congrFun hflight id') ?_ ?_
    · exact fun id' h => .inl (by simpa [idle, hidle] using .inr h)
    · rintro id' ⟨⟩
      exact ⟨hnodup.1, Nat.lt_of_lt_of_eq (ho.idle_lt id hmem) hsame.symm, .inr (.inl hmem)⟩
    · exact fun id' h => ho.fresh id' (Nat.le_trans (Nat.le_of_eq hsame.symm) h)
    · refine .asking [] rfl ?_
      rw [hflight]
      exact ho.atRest id hmem
  · have hempty : t.pool.idle = [] := hpool ▸ hnone
    have hlt : s.dialed < t.wire.dialed := by
      rw [hdialed, hid]
      exact Nat.lt_succ_self _
    refine ho.act hat rfl rfl ?_ ?_ ?_ (Nat.le_of_lt hlt) ?_ ?_ ?_ ?_
    · simp [idle, put, hempty]
    · simp [idle, put, hempty]
    · simp [idle, put, hempty]
    · rintro id' ⟨⟩
      exact ⟨by simp [idle, put, hempty], hid ▸ hlt, .inr (.inr (Nat.le_of_eq hid.symm))⟩
    · intro id' hlt' _
      have hne : id' ≠ id := fun h => Nat.lt_irrefl _ (hid ▸ h ▸ hlt')
      simp only [inFlight, put, hbox, if_neg hne]
    · exact fun id' h => ho.fresh id' (Nat.le_trans (Nat.le_of_lt hlt) h)
    · refine .asking [] rfl ?_
      obtain ⟨hun, hcoming⟩ := ho.fresh id (Nat.le_of_eq hid.symm)
      simp only [inFlight, put, hbox, if_pos, hun, hcoming, List.map_nil]

/-- **What a call writes stays on its own connection.** -/
theorem Orderly.writes {id : Nat} (ho : Orderly s) (bytes left : Bytes) (now : Instant)
    (hat : s.At n r (.exchanging id (bytes ++ left))) :
    Orderly { s.put n r (.exchanging id left)
        { s.transport with wire := s.transport.wire.send now id bytes } with
      unanswered := Function.update s.unanswered id
        (s.unanswered id ++ bytes.map fun b => (n, b)) } := by
  refine ho.keep hat rfl rfl rfl rfl rfl (fun _ hc => hc) ?_ ?_
  · intro id' hc
    have hne : id' ≠ id := fun h => hc (by rw [h]; rfl)
    simp only [inFlight, put, Wire.send_eq, Function.update_of_ne hne]
  · cases ho.holds n r _ hat with
    | asking written hline hflight =>
      refine .asking (written ++ bytes) (by rw [← hline, List.append_assoc]) ?_
      obtain ⟨hbox, hun, hcoming⟩ := InFlight.mk.inj hflight
      simp [inFlight, put, Wire.send_eq, hbox, hun, hcoming]
    | hearing a box coming hleft ha hcall hline hpayload hwhole hflight =>
      obtain ⟨rfl, rfl⟩ := List.append_eq_nil_iff.mp hleft
      refine .hearing a box coming rfl ha hcall hline hpayload hwhole (Eq.trans ?_ hflight)
      simp [inFlight, put, Wire.send_eq]

/-- **A response is read as a whole**, and it is the one to the request. -/
theorem Orderly.reads {id : Nat} {found : Frame.Found} {wire : Wire Unit} {response : Response}
    (ho : Orderly s) (hat : s.At n r (.exchanging id []))
    (hfound : s.transport.wire.receive? s.transport.maxFrameSize id = some (found, wire))
    (hresponse : s.transport.responseOf found = .ok response) :
    Orderly (s.put n r (.answered id response) { s.transport with wire := wire }) := by
  obtain ⟨hread, hdialed, hbox⟩ := Wire.receive?_eq_some hfound
  refine ho.keep hat rfl rfl rfl rfl hdialed (fun _ hc => hc) ?_ ?_
  · intro id' hc
    have hne : id' ≠ id := fun h => hc (by rw [h]; rfl)
    simp [inFlight, put, hbox, hne]
  · obtain ⟨payload, rfl⟩ : ∃ payload, found = .frame payload := by
      cases found with
      | frame payload => exact ⟨payload, rfl⟩
      | _ => cases hresponse
    have hinbox := Wire.inbox_eq s.transport.wire id
    cases ho.holds n r _ hat with
    | asking _ _ hflight =>
      have hempty : s.transport.wire.box? id = some [] := congrArg InFlight.box hflight
      rw [hinbox, hempty, Option.getD_some] at hread
      exact absurd (Frame.length_lt_of_read (Prod.ext hread.symm rfl)) (Nat.not_lt_zero _)
    | hearing a box coming _ ha hcall hline hpayload hwhole hflight =>
      obtain ⟨hsome, hun, hcoming⟩ := InFlight.mk.inj hflight
      rw [hinbox, hsome, Option.getD_some] at hread hbox
      obtain ⟨rfl, hrest, rfl⟩ := Frame.read_of_line hpayload hwhole (Prod.ext hread.symm rfl)
      refine .answered ⟨a, ha, hcall, hline, hresponse⟩ ?_
      simp [inFlight, put, hbox, hsome, hrest, hun, hcoming, InFlight.none]

theorem Orderly.misreads {id : Nat} {found : Frame.Found} {wire : Wire Unit} (ho : Orderly s)
    (now : Instant) (e : StoreError) (hat : s.At n r (.exchanging id []))
    (hfound : s.transport.wire.receive? s.transport.maxFrameSize id = some (found, wire)) :
    Orderly (s.put n r (.done (.error e))
      (StreamTransport.discard { s.transport with wire := wire } now id)) := by
  obtain ⟨-, hdialed, hbox⟩ := Wire.receive?_eq_some hfound
  refine ho.keep hat rfl rfl rfl rfl hdialed (fun _ hc => by cases hc) ?_ (.failed e)
  intro id' hc
  have hne : id' ≠ id := fun h => hc (by rw [h]; rfl)
  rw [inFlight_discard now hne]
  simp [inFlight, put, hbox, hne]

/-- A call that ends without giving its connection back lets it go. -/
theorem Orderly.letGo {outcome : Except StoreError Response} (ho : Orderly s) (now : Instant)
    (hat : s.At n r phase) (hholds : Holds s.answers s.inFlight n r (.done outcome)) :
    Orderly (s.put n r (.done outcome) (s.transport.letGo now phase.connection?)) := by
  cases hc : phase.connection? with
  | none =>
    exact ho.keep hat rfl rfl rfl rfl rfl (fun _ h => by cases h) (fun _ _ => rfl)
      (hholds.congr (fun _ ha => ha) fun _ h => by cases h)
  | some id =>
    refine ho.keep hat rfl rfl rfl rfl rfl (fun _ h => by cases h) ?_
      (hholds.congr (fun _ ha => ha) fun _ h => by cases h)
    intro id' hc'
    have hne : id' ≠ id := fun h => hc' (h ▸ hc)
    exact inFlight_discard now hne

theorem Orderly.findsOpen {id : Nat} {response : Response} (ho : Orderly s)
    (hat : s.At n r (.answered id response)) :
    Orderly (s.put n r (.returning id response) s.transport) := by
  refine ho.keep hat rfl rfl rfl rfl rfl (fun _ hc => hc) (fun _ _ => rfl) ?_
  cases ho.holds n r _ hat with
  | answered h hflight => exact .returning h hflight

/-- **A connection that comes back is at rest.** -/
theorem Orderly.returns {id : Nat} {response : Response} (ho : Orderly s) (now : Instant)
    (hat : s.At n r (.returning id response)) :
    Orderly (s.put n r (.done (.ok response)) (s.transport.store now id)) := by
  obtain ⟨hanswered, hflight⟩ : AnsweredWith s.answers n r response ∧ s.inFlight id = .none := by
    cases ho.holds n r _ hat with
    | returning h hflight => exact ⟨h, hflight⟩
  have huses : s.Uses n id := ⟨r, _, hat, rfl⟩
  by_cases hroom : s.transport.pool.idle.length < s.transport.pool.maxIdle
  · rw [StreamTransport.store, if_pos hroom]
    refine ho.act hat rfl rfl hroom (List.nodup_cons.mpr ⟨ho.free n id huses, ho.nodup⟩) ?_
      (Nat.le_refl _) (fun _ h => by cases h) (fun _ _ _ => rfl) ho.fresh (.succeeded hanswered)
    intro id' hid
    rcases List.mem_cons.mp hid with rfl | hid
    · exact .inr ⟨rfl, hflight⟩
    · exact .inl hid
  · rw [StreamTransport.store, if_neg hroom]
    exact ho.letGo now hat (.succeeded hanswered)

end Calls

/-! ### Steps of the peer -/

section Peer

variable [Json.Wording] {s s' : Traffic} {id : Nat}

/-- Something happens on one connection, and nothing to the calls and the pool. -/
theorem Orderly.peer (ho : Orderly s) (id : Nat) (hcalls : s'.calls = s.calls)
    (hidle : s'.idle = s.idle)
    (hlimit : s'.transport.pool.maxIdle = s.transport.pool.maxIdle) (hdialed : s'.dialed = s.dialed)
    (hanswers : s.answers ⊆ s'.answers) (hcarries : ∀ a ∈ s'.answers, a.CarriesId)
    (helse : ∀ id', id' ≠ id → s'.inFlight id' = s.inFlight id')
    (hrest : s.inFlight id = .none → s'.inFlight id = .none)
    (hfresh : s.unanswered id = [] ∧ s.coming id = [] → s'.unanswered id = [] ∧ s'.coming id = [])
    (hholds : ∀ n r left, s.At n r (.exchanging id left) →
      Holds s'.answers s'.inFlight n r (.exchanging id left)) : Orderly s' := by
  have hat : ∀ {n r phase}, s'.At n r phase → s.At n r phase := fun h => h.congr hcalls.symm
  have huses : ∀ {n id}, s'.Uses n id → s.Uses n id := fun ⟨r, phase, h, hc⟩ =>
    ⟨r, phase, hat h, hc⟩
  refine ⟨?_, ?_, ?_, ?_, ?_, ?_, ?_, ?_, ?_, hcarries⟩
  · rw [hidle, hlimit]
    exact ho.room
  · rw [hidle]
    exact ho.nodup
  · rw [hidle, hdialed]
    exact ho.idle_lt
  · rw [hdialed]
    exact fun n id h => ho.used_lt n id (huses h)
  · rw [hidle]
    exact fun n id h => ho.free n id (huses h)
  · exact fun n m id h h' => ho.one n m id (huses h) (huses h')
  · rw [hidle]
    intro id' hid
    by_cases he : id' = id
    · rw [he] at hid ⊢
      exact hrest (ho.atRest id hid)
    · exact (helse id' he).trans (ho.atRest id' hid)
  · rw [hdialed]
    intro id' hid
    by_cases he : id' = id
    · rw [he] at hid ⊢
      exact hfresh (ho.fresh id hid)
    · have hflight := helse id' he
      obtain ⟨hun, hcoming⟩ := ho.fresh id' hid
      exact ⟨(congrArg InFlight.unanswered hflight).trans hun,
        (congrArg InFlight.coming hflight).trans hcoming⟩
  · intro n r phase h
    by_cases hc : phase.connection? = some id
    · cases ho.holds n r phase (hat h) with
      | asking _ _ _ | hearing _ _ _ _ _ _ _ _ _ _ =>
        obtain rfl := Option.some.inj hc
        exact hholds n r _ (hat h)
      | answered hanswered hflight =>
        obtain rfl := Option.some.inj hc
        exact .answered (hanswered.mono hanswers) (hrest hflight)
      | returning hanswered hflight =>
        obtain rfl := Option.some.inj hc
        exact .returning (hanswered.mono hanswers) (hrest hflight)
      | _ => cases hc
    · refine (ho.holds n r phase (hat h)).congr hanswers fun id' hc' => helse id' ?_
      rintro rfl
      exact hc hc'

/-- **Only a whole request is answered**, and by then its call waits for the answer. -/
theorem Orderly.answers {n : Nat} {line rest : List (Nat × UInt8)} (ho : Orderly s)
    (payload : Bytes) (h : s.unanswered id = line ++ (n, Frame.newline) :: rest)
    (hpayload : Frame.newline ∉ payload)
    (hid : AnsweredLine.CarriesId ⟨n, line.map Prod.snd, payload⟩) :
    Orderly { s with
      unanswered := Function.update s.unanswered id rest
      coming := Function.update s.coming id (s.coming id ++ Frame.encode payload)
      answers := s.answers ++ [⟨n, line.map Prod.snd, payload⟩] } := by
  have hne : s.unanswered id ≠ [] := by simp [h]
  refine ho.peer id rfl rfl rfl rfl (List.subset_append_left _ _) ?_ ?_ ?_ ?_ ?_
  · intro a ha
    rcases List.mem_append.mp ha with ha | ha
    · exact ho.carries a ha
    · rw [List.mem_singleton.mp ha]
      exact hid
  · intro id' hid'
    simp [inFlight, hid']
  · exact fun hnone => absurd (congrArg InFlight.unanswered hnone) hne
  · exact fun hnone => absurd hnone.1 hne
  · intro m r left hat
    cases ho.holds m r _ hat with
    | asking written hline hflight =>
      obtain ⟨hbox, hun, hcoming⟩ := InFlight.mk.inj hflight
      -- The line ends where the request does, so all of it is written and it is the call's own.
      have hsplit : line ++ (n, Frame.newline) :: rest = written.map fun b => (m, b) :=
        h.symm.trans hun
      have hwritten : line.map Prod.snd ++ Frame.newline :: rest.map Prod.snd = written := by
        simpa [Function.comp_def] using congrArg (List.map Prod.snd) hsplit
      have hrequest : Frame.newline ∉ r.encode :=
        (Json.printable_encode r.toJson).not_mem (by decide)
      obtain ⟨hown, hleft⟩ := Frame.eq_of_append_newline (line.map Prod.snd)
        (rest.map Prod.snd ++ left) hrequest (by rw [← hline, ← hwritten]; simp)
      obtain ⟨hrest, rfl⟩ := List.append_eq_nil_iff.mp hleft
      obtain rfl := List.map_eq_nil_iff.mp hrest
      obtain rfl : n = m := by
        have hmem : (n, Frame.newline) ∈ written.map fun b => (m, b) := by
          rw [← hsplit]
          simp
        obtain ⟨b, -, hb⟩ := List.mem_map.mp hmem
        exact (congrArg Prod.fst hb).symm
      refine .hearing ⟨n, line.map Prod.snd, payload⟩ [] (Frame.encode payload) rfl (by simp) rfl
        hown hpayload rfl ?_
      simp [inFlight, hbox, hcoming]
    | hearing _ _ _ _ _ _ _ _ _ hflight => exact absurd (congrArg InFlight.unanswered hflight) hne

/-- **What comes in pieces is what was sent.** -/
theorem Orderly.arrives {bytes left : Bytes} (ho : Orderly s) (h : s.coming id = bytes ++ left) :
    Orderly { s with
      transport := { s.transport with wire := s.transport.wire.arrive [(id, bytes)] }
      coming := Function.update s.coming id left } := by
  have hbox := s.transport.wire.box?_arrive id bytes
  refine ho.peer id rfl rfl rfl rfl (fun _ ha => ha) ho.carries ?_ ?_ ?_ ?_
  · intro id' hid'
    simp [inFlight, hbox, hid']
  · intro hnone
    obtain ⟨hsome, hun, hcoming⟩ := InFlight.mk.inj hnone
    obtain ⟨rfl, rfl⟩ := List.append_eq_nil_iff.mp (h.symm.trans hcoming)
    simp [inFlight, hbox, hsome, hun, InFlight.none]
  · intro hnone
    obtain ⟨rfl, rfl⟩ := List.append_eq_nil_iff.mp (h.symm.trans hnone.2)
    simp [hnone.1]
  · intro m r left' hat
    cases ho.holds m r _ hat with
    | asking written hline hflight =>
      obtain ⟨hsome, hun, hcoming⟩ := InFlight.mk.inj hflight
      obtain ⟨rfl, rfl⟩ := List.append_eq_nil_iff.mp (h.symm.trans hcoming)
      exact .asking written hline (by simp [inFlight, hbox, hsome, hun])
    | hearing a box coming hleft ha hcall hline hpayload hwhole hflight =>
      obtain ⟨hsome, hun, hcoming⟩ := InFlight.mk.inj hflight
      obtain rfl := h.symm.trans hcoming
      refine .hearing a (box ++ bytes) left hleft ha hcall hline hpayload
        ((List.append_assoc ..).trans hwhole) ?_
      simp [inFlight, hbox, hsome, hun]

/-- No new call begins once the transport is shut, and nothing else changes. -/
theorem Orderly.shuts (ho : Orderly s) : Orderly { s with transport := s.transport.shut } :=
  ho.peer 0 rfl rfl rfl rfl (fun _ ha => ha) ho.carries (fun _ _ => rfl) (fun h => h)
    (fun h => h) fun n r _ hat => ho.holds n r _ hat

end Peer

/-! ### Any number of steps -/

section Runs

theorem box?_drain (now : Instant) (idle : List Nat) (w : Wire Unit) (id : Nat) :
    (idle.foldl (fun wire id => wire.hangUp now id) w).box? id =
      if id ∈ idle then none else w.box? id := by
  induction idle generalizing w with
  | nil => simp
  | cons k idle ih =>
    rw [List.foldl_cons, ih, Wire.box?_hangUp]
    by_cases hk : id = k <;> by_cases hm : id ∈ idle <;> simp [hk, hm]

theorem dialed_drain (now : Instant) (idle : List Nat) (w : Wire Unit) :
    (idle.foldl (fun wire id => wire.hangUp now id) w).dialed = w.dialed := by
  induction idle generalizing w with
  | nil => rfl
  | cons k idle ih => rw [List.foldl_cons, ih, Wire.dialed_hangUp]

variable [Json.Wording] {s s' : Traffic}

theorem Orderly.calls (ho : Orderly s) (r : Request) :
    Orderly { s with calls := s.calls ++ [(r, .called)] } := by
  have hat : ∀ {n r' phase}, At { s with calls := s.calls ++ [(r, .called)] } n r' phase →
      s.At n r' phase ∨ phase = .called := by
    intro n r' phase h
    unfold At at h ⊢
    rw [List.getElem?_append] at h
    split at h
    · exact .inl h
    · have hmem := List.mem_of_getElem? h
      exact .inr (congrArg Prod.snd (List.mem_singleton.mp hmem))
  have huses : ∀ {n id}, Uses { s with calls := s.calls ++ [(r, .called)] } n id →
      s.Uses n id := by
    rintro n id ⟨r', phase, h, hc⟩
    rcases hat h with h | rfl
    · exact ⟨r', phase, h, hc⟩
    · cases hc
  refine ⟨ho.room, ho.nodup, ho.idle_lt, fun n id h => ho.used_lt n id (huses h),
    fun n id h => ho.free n id (huses h), fun n m id h h' => ho.one n m id (huses h) (huses h'),
    ho.atRest, ho.fresh, fun n r' phase h => ?_, ho.carries⟩
  rcases hat h with h | rfl
  · exact ho.holds n r' phase h
  · exact .called

/-- The connections of calls are not touched when the idle ones are let go. -/
theorem Orderly.drains (ho : Orderly s) (now : Instant) :
    Orderly { s with transport := s.transport.drain now } := by
  have hdialed : dialed { s with transport := s.transport.drain now } = s.dialed :=
    dialed_drain now s.idle s.transport.wire
  refine ⟨Nat.zero_le _, List.nodup_nil, fun _ h => (by cases h), ?_,
    fun _ _ _ h => (by cases h), ho.one, fun _ h => (by cases h), ?_, ?_, ho.carries⟩
  · rw [hdialed]
    exact ho.used_lt
  · rw [hdialed]
    exact ho.fresh
  · intro n r phase hat
    refine (ho.holds n r phase hat).congr (fun _ ha => ha) fun id hc => ?_
    have hid : id ∉ s.idle := ho.free n id ⟨r, phase, hat, hc⟩
    have hbox := box?_drain now s.idle s.transport.wire id
    rw [if_neg hid] at hbox
    exact congrArg (fun box => (⟨box, s.unanswered id, s.coming id⟩ : InFlight)) hbox

/-- **Every step keeps order.** -/
theorem Orderly.step (ho : Orderly s) (hstep : Step s s') : Orderly s' := by
  cases hstep with
  | calls r => exact ho.calls r
  | enters hat _ => exact ho.enters hat
  | takes hat hout => exact ho.takes hat hout
  | writes bytes left now hat => exact ho.writes bytes left now hat
  | answers payload h _ hpayload hid => exact ho.answers payload h hpayload hid
  | arrives h => exact ho.arrives h
  | reads hat hfound hresponse => exact ho.reads hat hfound hresponse
  | misreads now hat hfound _ => exact ho.misreads now _ hat hfound
  | cut now e hat _ => exact ho.letGo now hat (.failed e)
  | findsClosed now hat _ =>
    refine ho.letGo now hat ?_
    cases ho.holds _ _ _ hat with
    | answered h _ => exact .succeeded h
  | findsOpen hat _ => exact ho.findsOpen hat
  | returns now hat => exact ho.returns now hat
  | shuts => exact ho.shuts
  | drains now _ => exact ho.drains now

/-- **Every run keeps order.** -/
theorem Orderly.runs (ho : Orderly s) (hruns : Runs s s') : Orderly s' := by
  induction hruns with
  | refl => exact ho
  | tail _ hstep ih => exact ih.step hstep

/-- Before the first call only the pool can be out of order. -/
theorem orderly_start {t : StreamTransport Unit} (hroom : t.pool.idle.length ≤ t.pool.maxIdle)
    (hnodup : t.pool.idle.Nodup)
    (hidle : ∀ id ∈ t.pool.idle, id < t.wire.dialed ∧ t.wire.box? id = some []) :
    Orderly (start t) := by
  have nobody : ∀ {n r phase}, ¬ (start t).At n r phase := by simp [At, start]
  have unused : ∀ {n id}, ¬ (start t).Uses n id := by
    rintro n id ⟨r, phase, h, -⟩
    exact nobody h
  refine ⟨hroom, hnodup, fun id h => (hidle id h).1, fun _ _ h => absurd h unused,
    fun _ _ h => absurd h unused, fun _ _ _ h => absurd h unused, fun id h => ?_,
    fun _ _ => ⟨rfl, rfl⟩, fun _ _ _ h => absurd h nobody, fun _ h => absurd h List.not_mem_nil⟩
  simp [inFlight, start, (hidle id h).2, InFlight.none]

/-- A transport that was just connected has one connection, which is at rest if it was kept. -/
theorem orderly_of_connect {endpoint : String} {config : RemoteConfig} {now : Instant}
    {network : Network} {t : StreamTransport Unit}
    (hconnect : StreamTransport.connect endpoint config now (Wire.ofPeer network ()) =
      (.ok (), t)) : Orderly (start t) ∧ t.pool.maxIdle = config.maxIdle := by
  simp only [StreamTransport.connect] at hconnect
  split at hconnect
  · cases hconnect
  · next id t₁ hdial =>
    obtain rfl := (Prod.mk.inj hconnect).2
    have hout : StreamTransport.checkOut ⟨endpoint, config.maxFrameSize, Pool.empty config.maxIdle,
      Wire.ofPeer network ()⟩ now = (.ok id, t₁) := hdial
    obtain ⟨-, ⟨hidle, -⟩ | ⟨hpool, -, -, hdialed, hbox⟩⟩ := StreamTransport.checkOut_cases hout
    · cases hidle
    rw [StreamTransport.checkIn_eq, hpool, if_neg (by simp [Pool.empty]), StreamTransport.store,
      hpool]
    split
    · next hroom =>
      refine ⟨orderly_start hroom (List.nodup_cons.mpr ⟨List.not_mem_nil, List.nodup_nil⟩)
        fun id' hid => ?_, rfl⟩
      obtain rfl := List.mem_singleton.mp hid
      exact ⟨hdialed ▸ Nat.lt_succ_self id', by simp [hbox]⟩
    · have hempty : (t₁.discard now id).pool = Pool.empty config.maxIdle := hpool
      refine ⟨orderly_start ?_ ?_ ?_, congrArg Pool.maxIdle hempty⟩
      all_goals simp [hempty, Pool.empty]

theorem maxIdle_step (hstep : Step s s') :
    s'.transport.pool.maxIdle = s.transport.pool.maxIdle := by
  cases hstep with
  | takes _ hout => exact (StreamTransport.checkOut_cases hout).1
  | @cut _ _ phase now _ _ _ =>
    simp only [put]
    cases phase.connection? <;> rfl
  | returns now _ =>
    simp only [put, StreamTransport.store]
    split <;> rfl
  | _ => rfl

theorem maxIdle_runs (hruns : Runs s s') :
    s'.transport.pool.maxIdle = s.transport.pool.maxIdle := by
  induction hruns with
  | refl => rfl
  | tail _ hstep ih => exact (maxIdle_step hstep).trans ih

/-- **Idle connections are at rest, and responses are the callers' own.** After any steps of any
number of calls on a transport that was connected, of its peer and of who closes it: on an idle
connection the peer has no byte to answer, no byte is coming and none was left unread; no two calls
use one connection, and none uses an idle one; no more connections are idle than the settings allow;
and a call that ended with a response has the id of its request in it, and it is the response on the
line with which the peer has answered the line of that very call. -/
theorem idle_at_rest {endpoint : String} {config : RemoteConfig} {now : Instant} {network : Network}
    {t : StreamTransport Unit}
    (hconnect : StreamTransport.connect endpoint config now (Wire.ofPeer network ()) = (.ok (), t))
    (hruns : Runs (start t) s) :
    (∀ id ∈ s.idle, s.unanswered id = [] ∧ s.coming id = [] ∧ s.transport.wire.inbox id = []) ∧
    (∀ n m id, s.Uses n id → s.Uses m id → n = m) ∧ (∀ n id, s.Uses n id → id ∉ s.idle) ∧
    s.idle.Nodup ∧ s.idle.length ≤ config.maxIdle ∧
    ∀ n r response, s.At n r (.done (.ok response)) → response.id = some r.id ∧
      ∃ a ∈ s.answers, a.call = n ∧ a.line = r.encode ∧ Response.decode a.text = .ok response := by
  obtain ⟨hstart, hlimit⟩ := orderly_of_connect hconnect
  have ho := hstart.runs hruns
  refine ⟨fun id hid => ?_, ho.one, ho.free, ho.nodup, ?_, fun n r response hat => ?_⟩
  · obtain ⟨hbox, hun, hcoming⟩ := InFlight.mk.inj (ho.atRest id hid)
    exact ⟨hun, hcoming, by rw [Wire.inbox_eq, hbox, Option.getD_some]⟩
  · exact (maxIdle_runs hruns).trans hlimit ▸ ho.room
  · cases ho.holds n r _ hat with
    | succeeded h =>
      obtain ⟨a, ha, hcall, hline, hdecode⟩ := h
      exact ⟨ho.carries a ha r response hline hdecode, a, ha, hcall, hline, hdecode⟩

omit [Json.Wording] in
/-- A frame that has come is received. -/
theorem receive?_of_inbox {w : Wire Unit} {limit id : Nat} {payload : Bytes}
    (hinbox : w.inbox id = Frame.encode payload) (hline : Printable payload)
    (hfits : payload.length < Frame.window limit) :
    ∃ w', w.receive? limit id = some (.frame payload, w') := by
  have hread := Frame.read_encode_of_lt (hline.not_mem (by decide)) (hline.getLast?_ne (by decide))
    hfits []
  rw [List.append_nil] at hread
  have hready : Frame.isReady limit (Frame.encode payload) = true := by
    refine Frame.isReady_iff.mpr (.inl ?_)
    rw [List.take_of_length_le (by simpa [Frame.encode] using Nat.succ_le_of_lt hfits)]
    simp [Frame.encode]
  unfold Wire.receive?
  rw [hinbox, hready, hread, Bool.or_true, if_pos rfl]
  exact ⟨_, rfl⟩

/-- A request that was written as a whole is answered. -/
theorem answers_whole {n id : Nat} {r : Request} {payload : Bytes}
    (hun : s.unanswered id = (Frame.encode r.encode).map fun b => (n, b))
    (hpayload : Frame.newline ∉ payload) (hid : AnsweredLine.CarriesId ⟨n, r.encode, payload⟩) :
    ∃ s', Step s s' ∧ s'.transport = s.transport ∧ s'.calls = s.calls ∧
      s'.unanswered = Function.update s.unanswered id [] ∧
      s'.coming = Function.update s.coming id (s.coming id ++ Frame.encode payload) := by
  have hsplit : s.unanswered id =
      (r.encode.map fun b => (n, b)) ++ (n, Frame.newline) :: [] := by
    simp [hun, Frame.encode]
  have hline : (r.encode.map fun b => (n, b)).map Prod.snd = r.encode := by
    simp [Function.comp_def]
  refine ⟨_, .answers payload hsplit ?_ hpayload ?_, rfl, rfl, rfl, rfl⟩
  · rw [hline]
    exact (Json.printable_encode r.toJson).not_mem (by decide)
  · rw [hline]
    exact hid

/-- A call whose connection is at rest can be answered, and then it gives the connection back. -/
theorem can_be_answered {n id : Nat} {r : Request}
    (hat : s.At n r (.exchanging id (Frame.encode r.encode))) (hrest : s.inFlight id = .none)
    (hopen : s.transport.pool.closed = false)
    (hroom : s.idle.length < s.transport.pool.maxIdle) {answer : Response}
    (hplain : answer.Plain) (hid : AnsweredLine.CarriesId ⟨n, r.encode, answer.encode⟩)
    (hfits : answer.encode.length < Frame.window s.transport.maxFrameSize) :
    ∃ s', Runs s s' ∧ s'.At n r (.done (.ok answer.received)) ∧ s'.idle = id :: s.idle := by
  obtain ⟨hbox, hun, hcoming⟩ := InFlight.mk.inj hrest
  have hprint : Printable answer.encode := Json.printable_encode answer.toJson
  obtain ⟨s₁, hwrite, hat₁, ht₁, -, hcoming₁, hun₁⟩ := writes_all hat 0
  have hasked : s₁.unanswered id = (Frame.encode r.encode).map fun b => (n, b) := by
    simp [hun₁, hun]
  obtain ⟨s₂, hanswer, ht₂, hcalls₂, -, hcoming₂⟩ :=
    answers_whole hasked (hprint.not_mem (by decide)) hid
  replace hcoming₂ : s₂.coming id = Frame.encode answer.encode ++ [] := by
    simp [hcoming₂, hcoming₁, hcoming]
  obtain ⟨s₃, harrive, hat₃, ht₃⟩ : ∃ s₃, Step s₂ s₃ ∧ s₃.At n r (.exchanging id []) ∧
      s₃.transport = { s.transport with
        wire := s.transport.wire.arrive [(id, Frame.encode answer.encode)] } :=
    ⟨_, .arrives hcoming₂, hat₁.congr hcalls₂, by rw [ht₂, ht₁, Wire.send_eq]⟩
  have hinbox : s₃.transport.wire.inbox id = Frame.encode answer.encode := by
    simp [ht₃, Wire.inbox_eq, Wire.box?_arrive, hbox]
  have hlimit : s₃.transport.maxFrameSize = s.transport.maxFrameSize := by rw [ht₃]
  obtain ⟨wire, hfound⟩ := receive?_of_inbox hinbox hprint (hlimit ▸ hfits)
  have hpool : s₃.transport.pool = s.transport.pool := by rw [ht₃]
  have hresponse : s₃.transport.responseOf (.frame answer.encode) = .ok answer.received := by
    rw [StreamTransport.responseOf, Response.decode_encode hplain]
  obtain ⟨s₄, hread, hat₄, hpool₄⟩ : ∃ s₄, Step s₃ s₄ ∧
      s₄.At n r (.answered id answer.received) ∧ s₄.transport.pool = s.transport.pool :=
    ⟨_, .reads hat₃ hfound hresponse, hat₃.put _, hpool⟩
  have hruns : Runs s s₄ :=
    (((Relation.ReflTransGen.single hwrite).tail hanswer).tail harrive).tail hread
  obtain ⟨s', hback, ht, hat'⟩ := checkIn_runs hat₄ 0
  refine ⟨s', hruns.trans hback, hat', ?_⟩
  have hroom : s.transport.pool.idle.length < s.transport.pool.maxIdle := hroom
  simp [idle, ht, StreamTransport.checkIn_eq, hpool₄, hopen, StreamTransport.store, hroom]

end Runs

/-- A call is canceled after it has written its request, and is answered all the same. The next call
with the same request gets a connection of its own and the answer to itself. -/
theorem idle_at_rest_after_late_answer :
    let t : StreamTransport Unit :=
      ⟨"127.0.0.1:8560", RemoteConfig.default.maxFrameSize, ⟨[0], 4, false⟩,
        ⟨.reachable, (), 1, [(0, [])]⟩⟩
    let r := Request.make 7 "freezer_ancients" []
    ∃ s₁ s₂ : Traffic, Runs (start t) s₁ ∧ s₁.At 0 r (.done (.error .canceled)) ∧
      s₁.coming 0 ≠ [] ∧ Runs s₁ s₂ ∧ s₂.idle = [1] ∧ s₂.unanswered 1 = [] ∧ s₂.coming 1 = [] ∧
      ∃ response, s₂.At 1 r (.done (.ok response)) ∧ response.id = some 7 ∧
        ∃ a ∈ s₂.answers, a.call = 1 ∧ Response.decode a.text = .ok response := by
  intro t r
  have hallowed : SocketAddress.dialRefusal? "127.0.0.1:8560" = none := by
    have hsplit : SocketAddress.splitLast? ':' "127.0.0.1:8560" = some ("127.0.0.1", "8560") := by
      decide +kernel
    rw [SocketAddress.dialRefusal?, hsplit]
    split
    · rfl
    · decide +kernel
  have hconnect : StreamTransport.connect "127.0.0.1:8560" .default 0 (Wire.ofPeer .reachable ()) =
      (.ok (), t) := by
    simp only [StreamTransport.connect, StreamTransport.dial, hallowed]
    rfl
  let service : Service := .ofConfig .default
  obtain ⟨answer, hplain, hcarries, hfits⟩ : ∃ answer : Response, answer.Plain ∧
      (∀ n, AnsweredLine.CarriesId ⟨n, r.encode, answer.encode⟩) ∧
      answer.encode.length < Frame.window t.maxFrameSize :=
    ⟨(service.handleLine (.at 0) Token.live r.encode Memory.empty).1, service.plain_handleLine ..,
      fun n => AnsweredLine.carriesId_handleLine service (.at 0) Token.live Memory.empty n
        (by simp [r, Request.make]), by decide +kernel⟩
  have hnewline : Frame.newline ∉ answer.encode :=
    (Json.printable_encode answer.toJson).not_mem (by decide)
  have hseven : r.id = 7 := rfl
  clear_value r
  -- The first call takes the idle connection and writes its request.
  let emptied : StreamTransport Unit := { t with pool := ⟨[], 4, false⟩ }
  have hout₀ : (start t).transport.checkOut 0 = (.ok 0, emptied) := rfl
  obtain ⟨sₐ, hasked, hatₐ, htₐ, hcallsₐ, hunₐ, hcomingₐ⟩ := asks_runs (start t) r rfl hout₀
  obtain ⟨s₀, hwrite, hat₀, ht₀, hcalls₀, hcoming₀, hun₀⟩ := writes_all hatₐ 0
  -- It is cut off then, and answered after that.
  obtain ⟨sₓ, hcut, hatₓ, htₓ, hcallsₓ, hunₓ, hcomingₓ⟩ : ∃ sₓ, Step s₀ sₓ ∧
      sₓ.At 0 r (.done (.error .canceled)) ∧ sₓ.transport = emptied.discard 0 0 ∧
      sₓ.calls.length = 1 ∧ sₓ.unanswered = s₀.unanswered ∧ sₓ.coming = s₀.coming := by
    refine ⟨_, .cut 0 .canceled hat₀ trivial, hat₀.put _, ?_, ?_, rfl, rfl⟩
    · rw [ht₀, htₐ]
      rfl
    · simp [put, hcalls₀, hcallsₐ, start]
  have hlate : sₓ.unanswered 0 = (Frame.encode r.encode).map fun b => (0, b) := by
    simp [hunₓ, hun₀, hunₐ, start]
  obtain ⟨s₁, hanswer, ht₁, hcalls₁, hun₁, hcoming₁⟩ := answers_whole hlate hnewline (hcarries 0)
  have hruns₁ : Runs (start t) s₁ := ((hasked.tail hwrite).tail hcut).tail hanswer
  have hcoming : s₁.coming 0 ≠ [] := by simp [hcoming₁, Frame.encode]
  -- The next call finds the pool empty and makes a connection, on which it is answered.
  have hout₁ : s₁.transport.checkOut 0 =
      (.ok 1, { emptied with wire := ⟨.reachable, (), 2, [(1, [])]⟩ }) := by
    have hendpoint : (emptied.discard 0 0).endpoint = "127.0.0.1:8560" := rfl
    rw [ht₁, htₓ]
    simp only [StreamTransport.checkOut, StreamTransport.dial, hendpoint, hallowed]
    rfl
  obtain ⟨s₂, hnext, hat₂, ht₂, -, hun₂, hcoming₂⟩ := asks_runs s₁ r (by rw [ht₁, htₓ]; rfl) hout₁
  rw [hcalls₁, hcallsₓ] at hat₂
  have hrest₂ : s₂.inFlight 1 = .none := by
    have hun : s₂.unanswered 1 = [] := by simp [hun₂, hun₁, hunₓ, hun₀, hunₐ, start]
    have hcoming : s₂.coming 1 = [] := by
      simp [hcoming₂, hcoming₁, hcomingₓ, hcoming₀, hcomingₐ, start]
    rw [inFlight, ht₂, hun, hcoming]
    rfl
  obtain ⟨s₃, hdone, hat₃, hidle₃⟩ := can_be_answered hat₂ hrest₂ (by rw [ht₂])
    (by simp [idle, ht₂, emptied]) hplain (hcarries 1) (by rw [ht₂]; exact hfits)
  replace hidle₃ : s₃.idle = [1] := by rw [hidle₃, idle, ht₂]
  have hruns₃ : Runs s₁ s₃ := hnext.trans hdone
  obtain ⟨hquiet, -, -, -, -, hown⟩ := idle_at_rest hconnect (hruns₁.trans hruns₃)
  obtain ⟨hun₃, hcoming₃, -⟩ := hquiet 1 (by simp [hidle₃])
  obtain ⟨hid, a, ha, hcall, -, hdecode⟩ := hown 1 r _ hat₃
  exact ⟨s₁, s₃, hruns₁, hatₓ.congr hcalls₁, hcoming, hruns₃, hidle₃, hun₃, hcoming₃, _, hat₃,
    hseven ▸ hid, a, ha, hcall, hdecode⟩

end Traffic

end ColdArchive
