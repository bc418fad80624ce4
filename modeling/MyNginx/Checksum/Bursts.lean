import MyNginx.Checksum.Bitwise
import MyNginx.Requests.Validation

/-!
# Short bursts

A body that is changed within four consecutive bytes gets another checksum, so the
request is dropped as long as its checksum field stays as it was.
-/

namespace MyNginx

open Foundation

/-- Two lists of one length that agree outside a window of four elements. -/
theorem split_window {α : Type} {xs ys : List α} (length : xs.length = ys.length) {first : Nat}
    (agree : ∀ i, i < first ∨ first + 4 ≤ i → xs[i]? = ys[i]?) :
    ∃ front window window' back, xs = front ++ window ++ back ∧ ys = front ++ window' ++ back ∧
      window.length = window'.length ∧ window.length ≤ 4 := by
  have hfront : xs.take first = ys.take first := by
    apply List.ext_getElem?
    intro i
    by_cases hi : i < first
    · rw [List.getElem?_take_of_lt hi, List.getElem?_take_of_lt hi, agree i (.inl hi)]
    · rw [List.getElem?_take_eq_none (Nat.le_of_not_lt hi),
        List.getElem?_take_eq_none (Nat.le_of_not_lt hi)]
  have hback : xs.drop (first + 4) = ys.drop (first + 4) := by
    apply List.ext_getElem?
    intro i
    rw [List.getElem?_drop, List.getElem?_drop, agree _ (.inr (Nat.le_add_right _ _))]
  have hsplit : ∀ zs : List α,
      zs = zs.take first ++ (zs.drop first).take 4 ++ zs.drop (first + 4) := by
    intro zs
    rw [List.append_assoc, ← List.drop_drop, List.take_append_drop, List.take_append_drop]
  refine ⟨xs.take first, (xs.drop first).take 4, (ys.drop first).take 4, xs.drop (first + 4),
    hsplit xs, ?_, ?_, List.length_take_le _ _⟩
  · rw [hfront, hback]
    exact hsplit ys
  · rw [List.length_take, List.length_take, List.length_drop, List.length_drop, length]

namespace Crc32

theorem getCrc_ne {body body' : List UInt8} (length : body'.length = body.length)
    (ne : body' ≠ body) {first : Nat}
    (agree : ∀ i, i < first ∨ first + 4 ≤ i → body'[i]? = body[i]?) :
    getCrc body' ≠ getCrc body := by
  obtain ⟨front, window, window', back, rfl, rfl, hlength, hshort⟩ := split_window length agree
  have hne : window ≠ window' := fun h => ne (by rw [h])
  have hfeedback : reflectedPolynomial.getLsbD (32 - 1) = true := by decide
  have hdigest := ShiftRegister.digest_burst hfeedback 0xFFFFFFFF#32 front back hlength (by omega) hne
  rw [getCrc_eq_complement, getCrc_eq_complement]
  exact fun h => hdigest (BitVec.not_inj.mp h)

/-- A body changed only within four consecutive bytes has another checksum. A request
with the checksum field of one body and the other body is dropped. -/
theorem getCrc_burst {body body' : List UInt8} (length : body'.length = body.length)
    (ne : body' ≠ body) {first : Nat}
    (agree : ∀ i, i < first ∨ first + 4 ≤ i → body'[i]? = body[i]?) :
    getCrc body' ≠ getCrc body ∧
      ∀ request request' : Message, packetBody request.buf = body →
        packetBody request'.buf = body' → crc32 request'.buf = crc32 request.buf →
        CrcOk request.buf → ¬ CrcOk request'.buf ∧
          ∀ (s : State) (now : Time), s.threadRecvProc request' now = (s, none) := by
  have hcrc := getCrc_ne length ne agree
  refine ⟨hcrc, ?_⟩
  rintro request request' rfl rfl field passes
  have hcorrupt : ¬ CrcOk request'.buf := by
    intro hpasses
    rw [crcOk_iff] at passes hpasses
    rw [passes, hpasses] at field
    exact hcrc (BitVec.eq_of_toNat_eq field)
  exact ⟨hcorrupt, fun s now => State.threadRecvProc_corrupt hcorrupt⟩

theorem getCrc_burst_bit : getCrc [1, 2] ≠ getCrc [1, 0] := by
  have hagree : ∀ i, i < 1 ∨ 1 + 4 ≤ i → [(1 : UInt8), 2][i]? = [(1 : UInt8), 0][i]? := by
    intro i hi
    match i with
    | 0 => rfl
    | 1 => omega
    | n + 2 => rfl
  have hlength : [(1 : UInt8), 2].length = [(1 : UInt8), 0].length := rfl
  exact (getCrc_burst hlength (by decide) hagree).1

end Crc32

end MyNginx
