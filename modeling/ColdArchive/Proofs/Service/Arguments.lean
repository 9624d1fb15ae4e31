import Mathlib.Data.List.Forall2
import ColdArchive.Proofs.Service.Responses

/-!
# What is refused before the archive is asked

Every method takes parameters of a number and of kinds of its own. The archive is asked for a request
only if its parameters are of these, its limits leave time for it, and its names and envelopes stand
for something; otherwise the request is refused and the archive is as it was.
-/

namespace ColdArchive

/-! ### Parameters -/

/-- What a parameter must be. -/
inductive ParamKind where
  | text
  | natural

/-- The value is a parameter of that kind. -/
def ParamKind.Takes : ParamKind → Json → Prop
  | text, j => ∃ s, j = .string s
  | natural, j => ∃ n, j = .number (.natural n)

/-- The parameters of a method, in their order. -/
def Method.signature : Method → List ParamKind
  | .hasAncient | .ancient => [.text, .natural]
  | .ancientSize => [.text]
  | .appendAncient => .natural :: Category.all.map fun _ => .text
  | .truncateAncients => [.natural]
  | .close | .pingVersion | .ancients | .sync => []

/-- The parameters are those of the method, in number and kind. -/
def Method.Takes (m : Method) (params : List Json) : Prop :=
  List.Forall₂ ParamKind.Takes m.signature params

theorem Method.Takes.length {m : Method} {params : List Json} (h : m.Takes params) :
    params.length = m.arity := by
  rw [← h.length_eq]
  cases m <;> rfl

namespace WireCall

variable {params : List Json} {n : Nat} {name : String}

theorem text_of_textParam {s : String} (h : textParam params n name = .ok s) :
    params[n]? = some (.string s) := by
  unfold textParam at h
  split at h
  · next s' hs =>
    cases h
    obtain ⟨j, hj, hs⟩ := Option.bind_eq_some_iff.mp hs
    cases j <;> cases hs
    exact hj
  · cases h

theorem natural_of_naturalParam {k : Nat} (h : naturalParam params n name = .ok k) :
    ∃ u, params[n]? = some (.number (.natural u)) := by
  unfold naturalParam at h
  split at h
  · next u hu =>
    obtain ⟨j, hj, hu⟩ := Option.bind_eq_some_iff.mp hu
    rw [Json.asNatural?_eq_some_iff] at hu
    exact ⟨u, hu ▸ hj⟩
  · cases h

theorem takes_of_ofParams {m : Method} {call : WireCall} (hlen : params.length = m.arity)
    (h : ofParams params m = .ok call) : m.Takes params := by
  have text : ∀ {i : Nat} {name s : String} {j : Json}, textParam params i name = .ok s →
      params[i]? = some j → ParamKind.text.Takes j := fun hs hj =>
    ⟨_, Option.some.inj (hj.symm.trans (text_of_textParam hs))⟩
  have natural : ∀ {i k : Nat} {name : String} {j : Json}, naturalParam params i name = .ok k →
      params[i]? = some j → ParamKind.natural.Takes j := fun hk hj => by
    obtain ⟨u, hu⟩ := natural_of_naturalParam hk
    exact ⟨u, Option.some.inj (hj.symm.trans hu)⟩
  cases m with
  | hasAncient | ancient =>
    obtain ⟨category, hcategory, h⟩ := bind_eq_ok h
    obtain ⟨number, hnumber, -⟩ := bind_eq_ok h
    match params, hlen with
    | [_, _], _ => exact .cons (text hcategory rfl) (.cons (natural hnumber rfl) .nil)
  | ancientSize =>
    obtain ⟨category, hcategory, -⟩ := bind_eq_ok h
    match params, hlen with
    | [_], _ => exact .cons (text hcategory rfl) .nil
  | appendAncient =>
    obtain ⟨number, hnumber, h⟩ := bind_eq_ok h
    obtain ⟨hash, hhash, h⟩ := bind_eq_ok h
    obtain ⟨header, hheader, h⟩ := bind_eq_ok h
    obtain ⟨body, hbody, h⟩ := bind_eq_ok h
    obtain ⟨receipts, hreceipts, h⟩ := bind_eq_ok h
    obtain ⟨td, htd, -⟩ := bind_eq_ok h
    match params, hlen with
    | [_, _, _, _, _, _], _ =>
      exact .cons (natural hnumber rfl) (.cons (text hhash rfl) (.cons (text hheader rfl)
        (.cons (text hbody rfl) (.cons (text hreceipts rfl) (.cons (text htd rfl) .nil)))))
  | truncateAncients =>
    obtain ⟨target, htarget, -⟩ := bind_eq_ok h
    match params, hlen with
    | [_], _ => exact .cons (natural htarget rfl) .nil
  | close | pingVersion | ancients | sync =>
    match params, hlen with
    | [], _ => exact .nil

/-- **A call is read off its parameters** if and only if they are those of the method. -/
theorem takes_iff {m : Method} : m.Takes params ↔
    params.length = m.arity ∧ ∃ call, ofParams params m = .ok call := by
  constructor
  · intro h
    refine ⟨h.length, ?_⟩
    cases m with
    | hasAncient | ancient =>
      obtain _ | ⟨⟨_, rfl⟩, _ | ⟨⟨_, rfl⟩, ⟨⟩⟩⟩ := h
      exact ⟨_, rfl⟩
    | ancientSize | truncateAncients =>
      obtain _ | ⟨⟨_, rfl⟩, ⟨⟩⟩ := h
      exact ⟨_, rfl⟩
    | appendAncient =>
      obtain _ | ⟨⟨_, rfl⟩, _ | ⟨⟨_, rfl⟩, _ | ⟨⟨_, rfl⟩, _ | ⟨⟨_, rfl⟩, _ | ⟨⟨_, rfl⟩,
        _ | ⟨⟨_, rfl⟩, ⟨⟩⟩⟩⟩⟩⟩⟩ := h
      exact ⟨_, rfl⟩
    | close | pingVersion | ancients | sync => exact ⟨_, rfl⟩
  · rintro ⟨hlen, call, h⟩
    exact takes_of_ofParams hlen h

/-- The names and envelopes of a call stand for something. -/
def Decodes : WireCall → Prop
  | ancient category _ => ∃ c, Category.ofName? category = some c
  | ancientSize category => ∃ c, Category.ofName? category = some c
  | appendAncient _ envelopes => ∀ c, ∃ blob, Envelope.decode (envelopes.get c) = .ok blob
  | _ => True

theorem decodes_of_toCall? {call : WireCall} {asked? : Option Call}
    (h : call.toCall? = .ok asked?) : call.Decodes := by
  cases call with
  | ancient category number =>
    obtain ⟨c, hc, -⟩ := bind_eq_ok h
    exact ⟨c, Service.ofName?_of_ofName hc⟩
  | ancientSize category =>
    obtain ⟨c, hc, -⟩ := bind_eq_ok h
    exact ⟨c, Service.ofName?_of_ofName hc⟩
  | appendAncient number envelopes =>
    obtain ⟨record, hrecord, -⟩ := bind_eq_ok h
    exact fun c => ⟨_, decode_of_openRecord hrecord c⟩
  | _ => trivial

end WireCall

/-! ### Requests -/

namespace Service

/-- There is something to ask the archive for. -/
structure Understood (now : Readings) (ctx : Context) (m : Method) (params : List Json) : Prop where
  takes : m.Takes params
  live : ctx.IsLive now.checked
  decodes : ∀ call, WireCall.ofParams params m = .ok call → call.Decodes

variable {σ : Type} [Archive σ]

/-- **What is not understood is refused**: a wrong number of parameters, one of another kind, a
request that is given up or comes too late, a category that does not exist, an envelope that cannot
be opened. The archive is not asked. -/
theorem dispatch_of_not_understood {now : Readings} {ctx : Context} {m : Method}
    {params : List Json} (h : ¬ Understood now ctx m params) (a : σ) :
    ∃ fault, dispatch now ctx m params a = (.error fault, a) := by
  rcases dispatch_cases now ctx m params a with hrefused | ⟨call, hcall, hlive, hdispatch⟩
  · exact hrefused
  by_cases hlen : params.length = m.arity
  · have hnot : ¬ call.Decodes := fun hd => h
      ⟨WireCall.takes_of_ofParams hlen hcall, hlive, fun call' hcall' =>
        Except.ok.inj (hcall.symm.trans hcall') ▸ hd⟩
    obtain ⟨e, he⟩ : ∃ e, call.toCall? = .error e := by
      cases hto : call.toCall? with
      | error e => exact ⟨e, rfl⟩
      | ok asked => exact absurd (WireCall.decodes_of_toCall? hto) hnot
    refine ⟨Fault.ofError e, ?_⟩
    rw [hdispatch, WireCall.perform, he]
    rfl
  · unfold dispatch
    rw [if_pos hlen]
    exact ⟨_, rfl⟩

/-- **What is understood is a call**, and its answer is the answer to the request. -/
theorem dispatch_of_understood {now : Readings} {ctx : Context} {m : Method} {params : List Json}
    (h : Understood now ctx m params) (a : σ) :
    ∃ call, WireCall.ofParams params m = .ok call ∧ call.Decodes ∧
      dispatch now ctx m params a =
        ((call.perform a now.performed ctx).1.mapError Fault.ofError,
          (call.perform a now.performed ctx).2) := by
  obtain ⟨hlen, call, hcall⟩ := WireCall.takes_iff.mp h.takes
  have hcheck : ctx.check now.checked = .ok () := h.live
  refine ⟨call, hcall, h.decodes call hcall, ?_⟩
  simp only [dispatch, hlen, ne_eq, not_true, if_false, hcheck, hcall]

/-- A request that is not understood is answered with an error, and nothing else happens. -/
theorem handleLine_of_not_understood [Json.Wording] {s : Service} {now : Readings} {token : Token}
    {line : Bytes} {r : Request} {m : Method} (hasks : s.AsksFor line r m)
    (h : ¬ Understood now (s.contextFor now.started token r) m r.params) (a : σ) :
    (s.handleLine now token line a).1.error ≠ none ∧ (s.handleLine now token line a).2 = a := by
  obtain ⟨fault, hd⟩ := dispatch_of_not_understood h a
  have hdecided := s.decided_handleLine now token line a
  generalize s.handleLine now token line a = handled at hdecided ⊢
  obtain ⟨response, a'⟩ := handled
  cases hdecided with
  | dispatched hasks' =>
    obtain ⟨rfl, rfl⟩ := hasks.unique hasks'
    rw [hd]
    exact ⟨Option.some_ne_none _, rfl⟩
  | _ => exact ⟨Option.some_ne_none _, rfl⟩

end Service

end ColdArchive
