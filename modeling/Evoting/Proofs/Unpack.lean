/-
Which payloads `getUnpackedTransaction` takes.

The fields of a payload are counted after `split` has forgotten the empty ones at
its end.  A payload of at most two commas always passes and is filled up to its own
fields; one of three or more is refused only if three of them stand before the commas
at its end.
-/
import Evoting.Proofs.Handler

namespace Evoting

variable {platform : Platform}

/-- **What `getUnpackedTransaction` returns**, by the commas before those at the end. -/
theorem getUnpackedTransaction_eq (request : TpProcessRequest) :
    getUnpackedTransaction platform request =
      if (Fields.strip ',' (platform.utf8.toStringUtf8 request.payload)).count ',' < 3 then
        let payloadList := Fields.pad 3
          (splitString ',' (platform.utf8.toStringUtf8 request.payload))
        .ok ⟨payloadList.getD 0 [], payloadList.getD 1 [], payloadList.getD 2 []⟩
      else .error (.invalidTransaction "Invalid payload serialization") := by
  have hlength : (splitString ',' (platform.utf8.toStringUtf8 request.payload)).length ≤ 3 ↔
      (Fields.strip ',' (platform.utf8.toStringUtf8 request.payload)).count ',' < 3 :=
    Fields.length_split_le_iff (by omega)
  unfold getUnpackedTransaction
  by_cases hfew : (Fields.strip ',' (platform.utf8.toStringUtf8 request.payload)).count ',' < 3
  · rw [if_pos hfew, if_neg (by omega)]
  · rw [if_neg hfew, if_pos (by omega)]

/-- Exactly the payloads of at most two commas are accepted, and unpacked into their fields
and empty strings. -/
def UnpacksByCommas (platform : Platform) (request : TpProcessRequest) : Prop :=
  let payload := platform.utf8.toStringUtf8 request.payload
  (payload.count ',' ≤ 2 → ∃ name action third,
    payload.splitOn ',' ++ List.replicate (3 - (payload.splitOn ',').length) []
      = [name, action, third] ∧
    getUnpackedTransaction platform request = .ok ⟨name, action, third⟩) ∧
  (3 ≤ payload.count ',' → ∃ message,
    getUnpackedTransaction platform request = .error (.invalidTransaction message))

/-- A list filled up to three elements has three. -/
theorem pad_three (fields : List JString) (h : fields.length ≤ 3) :
    ∃ name action third, Fields.pad 3 fields = [name, action, third] := by
  refine List.length_eq_three.mp ?_
  rw [Fields.pad, List.length_append, List.length_replicate]
  omega

/-- **When the commas decide.**  They do, but for payloads of three or more commas of which at
most two are left when those at the end are dropped. -/
theorem unpacksByCommas_iff (platform : Platform) (request : TpProcessRequest) :
    UnpacksByCommas platform request ↔
      (platform.utf8.toStringUtf8 request.payload).count ',' ≤ 2 ∨
        3 ≤ (Fields.strip ',' (platform.utf8.toStringUtf8 request.payload)).count ',' := by
  have hstrip := Fields.count_strip_le ',' (platform.utf8.toStringUtf8 request.payload)
  unfold UnpacksByCommas
  rw [getUnpackedTransaction_eq]
  constructor
  · rintro ⟨-, hmany⟩
    by_cases hfew : (platform.utf8.toStringUtf8 request.payload).count ',' ≤ 2
    · exact Or.inl hfew
    · refine Or.inr ?_
      obtain ⟨message, hmessage⟩ := hmany (by omega)
      by_contra hstripped
      rw [if_pos (by omega)] at hmessage
      simp at hmessage
  · intro hwhen
    refine ⟨fun hfew => ?_, fun hmany => ?_⟩
    · have hlen := Fields.length_splitOn ',' (platform.utf8.toStringUtf8 request.payload)
      obtain ⟨name, action, third, hpad⟩ := pad_three
        ((platform.utf8.toStringUtf8 request.payload).splitOn ',') (by omega)
      refine ⟨name, action, third, hpad, ?_⟩
      rw [if_pos (by omega), splitString, Fields.pad_split (by omega), hpad]
      rfl
    · rw [if_neg (by omega)]
      exact ⟨_, rfl⟩

/-- A payload of three fields with a comma after them. -/
def trailingComma : TpProcessRequest :=
  ⟨Utf8.standard.copyFromUtf8 "mayor,create,key,".toList, "signer".toList⟩

/-- Three commas, one of them at the end, are accepted. -/
theorem not_unpacksByCommas_trailingComma : ¬UnpacksByCommas .reference trailingComma := by
  intro h
  have hpayload : Platform.reference.utf8.toStringUtf8 trailingComma.payload
      = "mayor,create,key,".toList := Utf8.toStringUtf8_copyFromUtf8 _ _
  obtain ⟨message, hmessage⟩ := h.2 (by rw [hpayload]; decide)
  rw [getUnpackedTransaction_eq, hpayload, if_pos (by decide)] at hmessage
  simp at hmessage

end Evoting
