import ColdArchive.Proofs.Archive
import ColdArchive.Proofs.Envelope
import ColdArchive.Proofs.Message.Exchange
import ColdArchive.Proofs.Method
import ColdArchive.Remote.Archive

/-!
# Calls on the wire

The parameters of a call are read as the call on the other side, and its answer is read back from the
result.
-/

namespace ColdArchive

/-! ### Numbers of 64 bits -/

/-- The numbers of the call fit 64 bits. -/
def Call.Fits : Call → Prop
  | has _ number => number < wordLimit
  | read _ number => number < wordLimit
  | append number _ => number < wordLimit
  | truncate target => target < wordLimit
  | _ => True

def Reply.Fits : Reply → Prop
  | number n => n < wordLimit
  | _ => True

/-- The numbers of the answer fit 64 bits. -/
def Outcome.Fits : Outcome → Prop
  | .ok reply => reply.Fits
  | .error e => e.Fits

/-! ### Parameters and results -/

namespace Call

/-- The call with its arguments as they are sent. -/
def onWire : Call → WireCall
  | has c number => .hasAncient c.name number
  | read c number => .ancient c.name number
  | count => .ancients
  | size c => .ancientSize c.name
  | append number record => .appendAncient number (record.map Envelope.encode)
  | truncate target => .truncateAncients target
  | sync => .sync
  | close => .close

theorem length_params (call : Call) : call.params.length = call.method.arity := by
  cases call <;> rfl

theorem plain_params (call : Call) : ∀ j ∈ call.params, j.Plain 0 := by
  cases call <;> simp [params, Json.Plain, Json.ofNat, Number.IsInteger]

theorem ofParams_params {call : Call} (h : call.Fits) :
    WireCall.ofParams call.params call.method = .ok call.onWire := by
  have natural : ∀ (i n : Nat) (name : String), n < wordLimit →
      call.params[i]? = some (.ofNat n) → WireCall.naturalParam call.params i name = .ok n := by
    intro i n name hn hi
    simp [WireCall.naturalParam, hi, Json.asNatural?_ofNat, toNat_ofNat hn]
  have text : ∀ (i : Nat) (s name : String),
      call.params[i]? = some (.string s) → WireCall.textParam call.params i name = .ok s := by
    intro i s name hi
    simp [WireCall.textParam, hi, Json.asString?]
  cases call with
  | has c number =>
    simp only [method, WireCall.ofParams, text 0 c.name "category" rfl,
      natural 1 number "number" h rfl]
    rfl
  | read c number =>
    simp only [method, WireCall.ofParams, text 0 c.name "category" rfl,
      natural 1 number "number" h rfl]
    rfl
  | size c =>
    simp only [method, WireCall.ofParams, text 0 c.name "category" rfl]
    rfl
  | append number record =>
    simp only [method, WireCall.ofParams, natural 0 number "number" h rfl,
      text 1 (Envelope.encode record.hash) "hash" rfl,
      text 2 (Envelope.encode record.header) "header" rfl,
      text 3 (Envelope.encode record.body) "body" rfl,
      text 4 (Envelope.encode record.receipts) "receipts" rfl,
      text 5 (Envelope.encode record.difficulty) "td" rfl]
    rfl
  | truncate target =>
    simp only [method, WireCall.ofParams, natural 0 target "target" h rfl]
    rfl
  | _ => rfl

/-- **The archive is asked for the call that was made.** -/
theorem toCall?_onWire (call : Call) : call.onWire.toCall? = .ok (some call) := by
  have name : ∀ c : Category, Category.ofName c.name = .ok c := by
    intro c
    rw [Category.ofName, Category.ofName?_name]
  have blob : ∀ b : Blob, WireCall.openEnvelope (Envelope.encode b) = .ok b := by
    intro b
    rw [WireCall.openEnvelope, Envelope.decode_encode]
    rfl
  cases call with
  | has c number => simp [onWire, WireCall.toCall?]
  | read c number => simp only [onWire, WireCall.toCall?, name]; rfl
  | size c => simp only [onWire, WireCall.toCall?, name]; rfl
  | append number record =>
    simp only [onWire, WireCall.toCall?, WireCall.openRecord, ByCategory.map, ByCategory.ofFn, blob]
    rfl
  | _ => rfl

/-- **The answer to a call is read back** from the result. -/
theorem readReply_toJson {call : Call} {reply : Reply} (hs : reply.Suits call) (hf : reply.Fits) :
    call.readReply reply.toJson = .ok reply := by
  have number : ∀ n < wordLimit, readNumber (.ofNat n) = .ok (.number n) := by
    intro n hn
    simp [readNumber, Json.asNatural?_ofNat, toNat_ofNat hn]
  cases call <;> cases reply <;> first | exact hs.elim | skip
  case read.blob c n bytes =>
    simp only [readReply, Reply.toJson, Json.asString?, Envelope.decode_encode]
    rfl
  case count.number n => exact number n hf
  case size.number c n => exact number n hf
  all_goals rfl

end Call

theorem Reply.plain_toJson (reply : Reply) : reply.toJson.Plain 0 := by
  cases reply <;> trivial

end ColdArchive
