import Mathlib.Data.List.Range
import TradingHarness.Library.Chunks

set_option autoImplicit false

/-! # The delivery of a summary

`deliver_one` (`edge_api.py`) sends a summary and the signed links of its notes in parts. A part is recorded by its number,
and the links are looked up again at each attempt. -/

namespace TradingHarness.Xhs

/-- `FEISHU_MAX_CHARS` -/
def feishuMaxChars : ℕ := 3000

/-- One more link, beside the chunks that are full. -/
def packLink (packed : List (List Char) × List Char) (signedUrl : List Char) : List (List Char) × List Char :=
  let line := "原文直链：".toList ++ signedUrl
  let candidate := packed.2 ++ '\n' :: line
  if feishuMaxChars < candidate.length ∧ packed.2 ≠ [] then (packed.1 ++ [packed.2], line) else (packed.1, candidate)

def textChunks (text : List Char) : List (List Char) :=
  if text = [] then [text] else Chunks.chunks feishuMaxChars text

/-- `_delivery_chunks` -/
def deliveryChunks (text : List Char) (signedLinks : List (List Char)) : List (List Char) :=
  if signedLinks = [] then textChunks text
  else
    let packed := signedLinks.foldl packLink ([], "原文直链".toList)
    textChunks text ++ (packed.1 ++ if packed.2 = [] then [] else [packed.2])

/-- What becomes of a call: the message is there and the call returns, it is there and nobody knows, or it is not. -/
inductive CallEnd
  | returned
  | lost
  | refused

/-- A message that is there, and whether it is recorded. -/
structure SentPart where
  part : ℕ
  total : ℕ
  chunk : List Char
  recorded : Bool

/-- A job with its parts. -/
structure Delivery where
  parts : List ℕ := []
  sent : List SentPart := []
  delivered : Bool := false

def deliverParts (call : ℕ → CallEnd) (total : ℕ) : ℕ → List (List Char) → Delivery → Delivery
  | _, [], delivery => { delivery with delivered := true }
  | index, chunk :: rest, delivery =>
    if delivery.parts.contains index then deliverParts call total (index + 1) rest delivery
    else
      match call index with
      | .returned => deliverParts call total (index + 1) rest
          { delivery with sent := delivery.sent ++ [⟨index, total, chunk, true⟩], parts := delivery.parts ++ [index] }
      | .lost => { delivery with sent := delivery.sent ++ [⟨index, total, chunk, false⟩] }
      | .refused => delivery

/-- `deliver_one` of a ready job, with the links of the moment. -/
def deliverOne (text : List Char) (delivery : Delivery) (attempt : List (List Char) × (ℕ → CallEnd)) : Delivery :=
  if delivery.delivered then delivery
  else
    let chunks := deliveryChunks text attempt.1
    deliverParts attempt.2 chunks.length 1 chunks delivery

/-! ## What every attempt keeps -/

/-- The parts are recorded in order and not sent again, and the text is sent where it belongs. -/
structure Delivered (pieces : List (List Char)) (delivery : Delivery) : Prop where
  inOrder : delivery.parts = List.range' 1 delivery.parts.length
  recorded : (delivery.sent.filter SentPart.recorded).map SentPart.part = delivery.parts
  belongs : ∀ message ∈ delivery.sent, ∀ piece, pieces[message.part - 1]? = some piece → message.chunk = piece
  once : delivery.sent.Pairwise (fun earlier later => earlier.recorded = true → earlier.part ≠ later.part)
  whole : delivery.delivered = true → pieces.length ≤ delivery.parts.length

section Attempts

variable {pieces : List (List Char)} {delivery : Delivery}

/-- The next part is sent, and recorded or not. -/
theorem Delivered.send (h : Delivered pieces delivery) (hopen : delivery.delivered = false) (total : ℕ) {chunk : List Char}
    (hchunk : ∀ piece, pieces[delivery.parts.length]? = some piece → chunk = piece) (recorded : Bool) :
    Delivered pieces { delivery with
      sent := delivery.sent ++ [⟨delivery.parts.length + 1, total, chunk, recorded⟩]
      parts := delivery.parts ++ if recorded then [delivery.parts.length + 1] else [] } := by
  refine ⟨?_, ?_, fun message hmessage piece hpiece => ?_, ?_, fun hdone => absurd (hopen.symm.trans hdone) (by simp)⟩
  · cases recorded with
    | false => simpa using h.inOrder
    | true =>
        have hnext := congrArg (· ++ [delivery.parts.length + 1]) h.inOrder
        simpa [List.range'_concat, Nat.add_comm] using hnext
  · cases recorded <;> simp [List.filter_append, h.recorded]
  · rcases List.mem_append.mp hmessage with hold | hnew
    · exact h.belongs message hold piece hpiece
    · obtain rfl := List.mem_singleton.mp hnew
      exact hchunk piece hpiece
  · refine List.pairwise_append.mpr ⟨h.once, List.pairwise_singleton _ _, fun earlier hearlier later hlater hrecorded => ?_⟩
    obtain rfl := List.mem_singleton.mp hlater
    have hpart : earlier.part ∈ delivery.parts := by
      rw [← h.recorded]
      exact List.mem_map_of_mem (List.mem_filter.mpr ⟨hearlier, hrecorded⟩)
    rw [h.inOrder, List.mem_range'_1] at hpart
    dsimp only
    omega

theorem Delivered.parts (h : Delivered pieces delivery) (hopen : delivery.delivered = false) (call : ℕ → CallEnd) (total place : ℕ)
    (rest : List (List Char)) (hplace : place ≤ delivery.parts.length) (htotal : pieces.length ≤ place + rest.length)
    (hrest : ∀ i chunk piece, rest[i]? = some chunk → pieces[place + i]? = some piece → chunk = piece) :
    Delivered pieces (deliverParts call total (place + 1) rest delivery) := by
  induction rest generalizing place delivery with
  | nil => exact ⟨h.inOrder, h.recorded, h.belongs, h.once, fun _ => htotal.trans hplace⟩
  | cons chunk rest ih =>
      have htail : ∀ i next piece, rest[i]? = some next → pieces[place + 1 + i]? = some piece → next = piece := by
        intro i next piece hnext hpiece
        exact hrest (i + 1) next piece hnext (by rwa [Nat.add_right_comm, Nat.add_assoc] at hpiece)
      have hmem : place + 1 ∈ delivery.parts ↔ place < delivery.parts.length := by
        rw [h.inOrder, List.mem_range'_1, List.length_range']
        omega
      rw [List.length_cons] at htotal
      unfold deliverParts
      split
      next hcontains => exact ih h hopen (place + 1) (hmem.mp (by simpa using hcontains)) (by omega) htail
      next hcontains =>
        obtain rfl : place = delivery.parts.length := by
          have hlast := mt hmem.mpr (by simpa using hcontains)
          omega
        have hsend := h.send hopen total (fun piece hpiece => hrest 0 chunk piece rfl hpiece)
        split
        next => exact ih (hsend true) hopen _ (by simp) (by omega) htail
        next => simpa using hsend false
        next => exact h

end Attempts

/-! ## Runs -/

theorem flatten_textChunks (text : List Char) : (textChunks text).flatten = text := by
  unfold textChunks
  split
  next hempty => simp [hempty]
  next => exact Chunks.flatten_chunks _ text (by decide)

/-- **Whatever calls are lost and whichever links come and go between the attempts**, no part is sent again once it is
    recorded, and a job that is delivered has had its whole text sent in order. -/
theorem summary_delivered (text : List Char) (attempts : List (List (List Char) × (ℕ → CallEnd))) :
    let delivery := attempts.foldl (deliverOne text) {}
    Delivered (textChunks text) delivery ∧ (delivery.delivered = true →
      (((delivery.sent.filter SentPart.recorded).map SentPart.chunk).take (textChunks text).length).flatten = text) := by
  intro delivery
  have hinv : Delivered (textChunks text) delivery := by
    refine List.foldlRecOn attempts (deliverOne text) ⟨rfl, rfl, by simp, List.Pairwise.nil, by simp⟩ (fun before h attempt _ => ?_)
    unfold deliverOne
    split
    next => exact h
    next hopen =>
      obtain ⟨links, hlinks⟩ : ∃ links, deliveryChunks text attempt.1 = textChunks text ++ links := by
        unfold deliveryChunks
        split
        · exact ⟨[], (List.append_nil _).symm⟩
        · exact ⟨_, rfl⟩
      refine h.parts (by simpa using hopen) _ _ 0 _ (Nat.zero_le _) (by simp [hlinks]) (fun i chunk piece hchunk hpiece => ?_)
      rw [Nat.zero_add] at hpiece
      rw [hlinks, List.getElem?_append_left (List.getElem?_eq_some_iff.mp hpiece).1] at hchunk
      exact Option.some.inj (hchunk.symm.trans hpiece)
  refine ⟨hinv, fun hdelivered => ?_⟩
  have hwhole := hinv.whole hdelivered
  have hparts := hinv.recorded.trans hinv.inOrder
  have hlength := congrArg List.length hinv.recorded
  rw [List.length_map] at hlength
  conv_rhs => rw [← flatten_textChunks text]
  refine congrArg List.flatten (List.ext_getElem (by simp; omega) (fun i hi hpiece => ?_))
  rw [List.getElem_take, List.getElem_map]
  have hi' : i < (delivery.sent.filter SentPart.recorded).length := by omega
  have hpart : ((delivery.sent.filter SentPart.recorded)[i]).part = i + 1 := by
    have hplace := List.getElem_of_eq hparts (by rwa [List.length_map])
    rwa [List.getElem_map, List.getElem_range'_1, Nat.add_comm] at hplace
  refine hinv.belongs _ (List.mem_of_mem_filter (List.getElem_mem hi')) _ ?_
  rw [hpart, Nat.add_sub_cancel]
  exact List.getElem?_eq_getElem hpiece

end TradingHarness.Xhs
