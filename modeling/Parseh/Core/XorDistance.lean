import Parseh.Core.Matching
import Parseh.Lib.BigEndian

/-!
# Closest peers

`xor_distance` is documented to fill the shorter slice with zeros on the left.  The
index it computes runs past the front of that slice and is clamped to its first byte,
so the slice is filled with copies of its own first byte (`xorDistance_eq`); and
`sort_by_key` compares distances of different lengths from the left.

* `distance_eq_xor`: the documented distance is the XOR of the two numbers;
* `distanceExact_iff`: when the distance of two slices is total, symmetric and zero
  only for equal numbers;
* `closestExact_iff`: when `closest_peers` returns the closest peers;
* `xorMetric_iff`: both, and which lengths of ids are safe.
-/

namespace Parseh.Core

open Parseh.Lib Parseh.Wire

/-! ## The code -/

/-- `usize::wrapping_sub`. -/
def usizeWrappingSub (x y : Nat) : Nat := if y ≤ x then x - y else x + 2 ^ 64 - y

/-- `x - y` on `usize`: a build with overflow checks panics where another one wraps. -/
def usizeSub (overflowChecks : Bool) (x y : Nat) : Option Nat :=
  if overflowChecks && decide (x < y) then none else some (usizeWrappingSub x y)

/-- `a.get(a.len().wrapping_sub(1).wrapping_sub(i.min(a.len() - 1)))`, with 0 for none. -/
def byteAt (overflowChecks : Bool) (a : Bytes) (i : Nat) : Option UInt8 :=
  (usizeSub overflowChecks a.length 1).map fun last =>
    a[usizeWrappingSub (usizeWrappingSub a.length 1) (min i last)]?.getD 0

/-- The body of the loop. -/
def xorAt (overflowChecks : Bool) (a b : Bytes) (len : Nat) (out : Bytes) (i : Nat) :
    Option Bytes := do
  let av ← byteAt overflowChecks a i
  let bv ← byteAt overflowChecks b i
  some (out.set (len - 1 - i) (av ^^^ bv))

/-- `xor_distance`; `none` is a panic. -/
def xorDistance (overflowChecks : Bool) (a b : Bytes) : Option Bytes :=
  let len := max a.length b.length
  (List.range len).foldlM (xorAt overflowChecks a b len) (List.replicate len 0)

/-- `sort_by_key` with a key that may panic; it is not called on fewer than two. -/
def sortByKeyOrPanic {R : Type} (key : R → Option Bytes) (l : List R) : Option (List R) :=
  if l.length < 2 then some l
  else if l.all fun r => (key r).isSome then
    some (sortByKey (fun r => byteKey ((key r).getD [])) l)
  else none

namespace PeerRegistry

/-- The peer's advertisement is there and eligible. -/
def hasEligibleAd (ads : Keyed CapabilityAdvertisement.peerId) (id : PeerIdentity) : Bool :=
  ((ads.find? id.peerId).map fun ad => ad.readiness.isEligible).getD false

def eligible (ads : Keyed CapabilityAdvertisement.peerId) (values : List PeerIdentity) :
    List PeerIdentity :=
  values.filter (hasEligibleAd ads)

/-- `closest_peers`, when the map of identities is iterated as `values`. -/
def closestPeers (overflowChecks : Bool) (ads : Keyed CapabilityAdvertisement.peerId)
    (values : List PeerIdentity) (target : PeerId) (k : Nat) : Option (List PeerIdentity) :=
  if k = 0 then some []
  else
    (sortByKeyOrPanic (fun id => xorDistance overflowChecks id.peerId.toBytes target.toBytes)
      (eligible ads values)).map fun candidates => candidates.take k

end PeerRegistry

/-! ## What the loop computes -/

/-- The slice, filled up to `m` bytes with copies of its own first one. -/
def filled (m : Nat) (a : Bytes) : Bytes := List.replicate (m - a.length) (a.headD 0) ++ a

/-- The XOR of two slices, the shorter one filled up. -/
def xorFilled (a b : Bytes) : Bytes :=
  List.zipWith (· ^^^ ·) (filled (max a.length b.length) a) (filled (max a.length b.length) b)

/-- The byte at place `i` from the right. -/
def fromRight (a : Bytes) (i : Nat) : UInt8 := a[a.length - 1 - min i (a.length - 1)]?.getD 0

variable {overflowChecks : Bool} {a b : Bytes}

@[simp] theorem length_filled {m : Nat} (h : a.length ≤ m) : (filled m a).length = m := by
  rw [filled, List.length_append, List.length_replicate]
  omega

theorem filled_self (a : Bytes) : filled a.length a = a := by simp [filled]

theorem byteAt_eq (h : overflowChecks = false ∨ a ≠ []) (i : Nat) :
    byteAt overflowChecks a i = some (fromRight a i) := by
  cases a with
  | nil =>
    obtain rfl := h.resolve_right fun hne => hne rfl
    simp [byteAt, usizeSub, fromRight]
  | cons d a =>
    simp [byteAt, usizeSub, usizeWrappingSub, fromRight]

theorem byteAt_nil_panics (i : Nat) : byteAt true [] i = none := rfl

theorem xorAt_eq (ha : overflowChecks = false ∨ a ≠ []) (hb : overflowChecks = false ∨ b ≠ [])
    (len : Nat) :
    xorAt overflowChecks a b len =
      fun out i => some (out.set (len - 1 - i) (fromRight a i ^^^ fromRight b i)) := by
  funext out i
  rw [xorAt, byteAt_eq ha, byteAt_eq hb]
  rfl

/-- The loop writes the output from its end. -/
theorem foldl_set (f : Nat → UInt8) (len n : Nat) (h : n ≤ len) :
    (List.range n).foldl (fun out i => out.set (len - 1 - i) (f i)) (List.replicate len 0) =
      List.replicate (len - n) 0 ++ ((List.range n).map f).reverse := by
  induction n with
  | zero => simp
  | succ n ih =>
    have hlen : len - n = len - (n + 1) + 1 := by omega
    have hat : len - 1 - n = len - (n + 1) := by omega
    rw [List.range_succ, List.foldl_append, ih (by omega), hlen, List.replicate_succ',
      List.foldl_cons, List.foldl_nil, hat]
    simp

theorem filled_eq {m : Nat} (h : a.length ≤ m) :
    filled m a = ((List.range m).map (fromRight a)).reverse := by
  refine List.ext_getElem (by simp [h]) fun i hi _ => ?_
  rw [length_filled h] at hi
  rw [List.getElem_reverse, List.getElem_map, List.getElem_range, List.length_map,
    List.length_range]
  simp only [filled, fromRight, List.getElem_append, List.length_replicate,
    List.getElem_replicate]
  split
  · next hlt =>
    have hzero : a.length - 1 - min (m - 1 - i) (a.length - 1) = 0 := by omega
    rw [hzero]
    cases a <;> rfl
  · next hge =>
    have hplace : a.length - 1 - min (m - 1 - i) (a.length - 1) = i - (m - a.length) := by omega
    rw [hplace, List.getElem?_eq_getElem (by omega), Option.getD_some]

/-- The build does not check for overflow, or both slices or none of them are empty. -/
def NoPanic (overflowChecks : Bool) (a b : Bytes) : Prop :=
  overflowChecks = false ∨ (a = [] ↔ b = [])

/-- **The distance of the code.** -/
theorem xorDistance_eq (h : NoPanic overflowChecks a b) :
    xorDistance overflowChecks a b = some (xorFilled a b) := by
  have hrun : ∀ len, (overflowChecks = false ∨ a ≠ []) → (overflowChecks = false ∨ b ≠ []) →
      (List.range len).foldlM (xorAt overflowChecks a b len) (List.replicate len 0) =
        some ((List.range len).map fun i => fromRight a i ^^^ fromRight b i).reverse := by
    intro len ha hb
    rw [xorAt_eq ha hb]
    have := foldl_set (fun i => fromRight a i ^^^ fromRight b i) len len (le_refl len)
    rw [Nat.sub_self, List.replicate_zero, List.nil_append] at this
    rw [← this]
    exact List.foldlM_pure
  have hfilled : xorFilled a b = ((List.range (max a.length b.length)).map
      fun i => fromRight a i ^^^ fromRight b i).reverse := by
    rw [xorFilled, filled_eq (le_max_left ..), filled_eq (le_max_right ..),
      ← List.reverse_zipWith (by simp), List.zipWith_map, List.zipWith_self]
  rw [hfilled, xorDistance]
  rcases h with hoff | hboth
  · exact hrun _ (Or.inl hoff) (Or.inl hoff)
  · by_cases ha : a = []
    · rw [ha, hboth.mp ha]
      rfl
    · exact hrun _ (Or.inr ha) (Or.inr fun hb => ha (hboth.mpr hb))

theorem xorDistance_panics (h : ¬ NoPanic overflowChecks a b) :
    xorDistance overflowChecks a b = none := by
  unfold NoPanic at h
  rw [not_or, Bool.not_eq_false] at h
  obtain ⟨rfl, hone⟩ := h
  -- the first turn of the loop already looks at both slices
  have hfirst : ∀ len out, xorAt true a b len out 0 = none := by
    intro len out
    rw [xorAt]
    cases a with
    | nil => rfl
    | cons d a =>
      cases b with
      | nil => simp [byteAt_nil_panics]
      | cons e b => simp at hone
  have hpos : ∃ n, max a.length b.length = n + 1 := by
    cases a with
    | nil =>
      cases b with
      | nil => simp at hone
      | cons e b => exact ⟨b.length, by simp⟩
    | cons d a => exact Nat.exists_eq_succ_of_ne_zero (by simp)
  obtain ⟨n, hn⟩ := hpos
  rw [xorDistance, hn, List.range_succ_eq_map, List.foldlM_cons, hfirst]
  rfl

/-! ## The distance of the documentation -/

/-- The slice, zero-padded on the left to `m` bytes. -/
def zeroPadded (m : Nat) (a : Bytes) : Bytes := List.replicate (m - a.length) 0 ++ a

/-- The big-endian number of a slice. -/
def number (a : Bytes) : Nat := beValue (2 ^ 8) (byteKey a)

/-- The number of the XOR of two slices, the shorter one zero-padded on the left. -/
def distance (a b : Bytes) : Nat :=
  number (List.zipWith (· ^^^ ·) (zeroPadded (max a.length b.length) a)
    (zeroPadded (max a.length b.length) b))

theorem byteKey_lt (a : Bytes) : ∀ d ∈ byteKey a, d < 2 ^ 8 := by
  intro d hd
  obtain ⟨u, -, rfl⟩ := List.mem_map.mp hd
  exact u.toNat_lt

theorem length_byteKey (a : Bytes) : (byteKey a).length = a.length := List.length_map _

theorem number_append (a b : Bytes) :
    number (a ++ b) = number a * (2 ^ 8) ^ b.length + number b := by
  rw [number, byteKey, List.map_append, beValue_append, List.length_map]
  rfl

theorem number_zeroPadded (m : Nat) (a : Bytes) : number (zeroPadded m a) = number a := by
  rw [number, byteKey, zeroPadded, List.map_append, List.map_replicate]
  exact beValue_replicate_zero_append ..

theorem number_xor (h : a.length = b.length) :
    number (List.zipWith (· ^^^ ·) a b) = number a ^^^ number b := by
  have hkey : byteKey (List.zipWith (· ^^^ ·) a b) =
      List.zipWith (· ^^^ ·) (byteKey a) (byteKey b) := by
    simp [byteKey, List.map_zipWith, List.zipWith_map]
  rw [number, hkey]
  refine beValue_zipWith_xor (by decide) ?_ (byteKey_lt a) (byteKey_lt b)
  rw [length_byteKey, length_byteKey, h]

theorem distance_eq_xor (a b : Bytes) : distance a b = number a ^^^ number b := by
  rw [distance, number_xor, number_zeroPadded, number_zeroPadded]
  simp only [zeroPadded, List.length_append, List.length_replicate]
  omega

/-- Slices of one length are ordered as their numbers. -/
theorem number_le_iff (h : a.length = b.length) : number a ≤ number b ↔ byteKey a ≤ byteKey b := by
  refine beValue_le_iff (by decide) ?_ (byteKey_lt a) (byteKey_lt b)
  rw [length_byteKey, length_byteKey, h]

theorem number_replicate_pos {d : UInt8} (hd : d ≠ 0) (n : Nat) :
    0 < number (List.replicate (n + 1) d) := by
  have hpos : 0 < d.toNat := Nat.pos_of_ne_zero fun h => hd (UInt8.toNat_inj.mp h)
  rw [number, byteKey, List.map_replicate, List.replicate_succ, beValue_cons]
  exact Nat.add_pos_left (Nat.mul_pos hpos (Nat.pow_pos (by decide))) _

/-! ## Two slices -/

/-- What the distance of two slices should be. -/
structure DistanceExact (overflowChecks : Bool) (a b : Bytes) : Prop where
  total : ∃ d, xorDistance overflowChecks a b = some d
  symmetric : xorDistance overflowChecks a b = xorDistance overflowChecks b a
  zeroOnly : ∀ d, xorDistance overflowChecks a b = some d → (∀ u ∈ d, u = 0) →
    number a = number b

/-- The second slice is the first one with copies of its first byte, which is not
zero, put in front. -/
def Stretched (a b : Bytes) : Prop :=
  a.headD 0 ≠ 0 ∧ ∃ n, b = List.replicate (n + 1) (a.headD 0) ++ a

theorem NoPanic.symm (h : NoPanic overflowChecks a b) : NoPanic overflowChecks b a :=
  h.imp_right Iff.symm

theorem xorFilled_comm (a b : Bytes) : xorFilled a b = xorFilled b a := by
  rw [xorFilled, xorFilled, max_comm b.length]
  exact List.zipWith_comm_of_comm fun u v => UInt8.xor_comm u v

theorem zipWith_xor_zero_iff (h : a.length = b.length) :
    (∀ u ∈ List.zipWith (· ^^^ ·) a b, u = 0) ↔ a = b := by
  induction a generalizing b with
  | nil =>
    obtain rfl := List.eq_nil_of_length_eq_zero h.symm
    simp
  | cons d a ih =>
    cases b with
    | nil => cases h
    | cons e b =>
      rw [List.zipWith_cons_cons, List.forall_mem_cons, ih (Nat.succ.inj h), UInt8.xor_eq_zero_iff,
        List.cons.injEq]

/-- The XOR of the shorter slice and the longer one is zero when filling up the one
gives the other. -/
theorem xorFilled_zero_iff (h : a.length ≤ b.length) :
    (∀ u ∈ xorFilled a b, u = 0) ↔
      b = List.replicate (b.length - a.length) (a.headD 0) ++ a := by
  rw [xorFilled, max_eq_right h, zipWith_xor_zero_iff (by simp [h]), filled_self, eq_comm]
  rfl

theorem Stretched.zero (h : Stretched a b) : ∀ u ∈ xorFilled a b, u = 0 := by
  obtain ⟨-, n, hn⟩ := h
  have hlen : b.length = n + 1 + a.length := by rw [hn]; simp
  refine (xorFilled_zero_iff (by omega)).mpr ?_
  rw [hlen, Nat.add_sub_cancel]
  exact hn

theorem Stretched.number_ne (h : Stretched a b) : number a ≠ number b := by
  obtain ⟨hd, n, rfl⟩ := h
  have hpos := Nat.mul_pos (number_replicate_pos hd n)
    (Nat.pow_pos (n := a.length) (show 0 < 2 ^ 8 by decide))
  rw [number_append]
  omega

/-- Filled up with zeros, or not at all, a slice keeps its number. -/
theorem number_eq_of_zero (hle : a.length ≤ b.length) (hzero : ∀ u ∈ xorFilled a b, u = 0)
    (h : ¬ Stretched a b) : number a = number b := by
  have hb := (xorFilled_zero_iff hle).mp hzero
  cases hn : b.length - a.length with
  | zero => rw [hb, hn, List.replicate_zero, List.nil_append]
  | succ n =>
    have hd : a.headD 0 = 0 := by
      by_contra hd
      exact h ⟨hd, n, by rw [← hn]; exact hb⟩
    rw [hb, hd]
    exact (number_zeroPadded b.length a).symm

/-- **When the distance of two slices is what it should be.** -/
theorem distanceExact_iff :
    DistanceExact overflowChecks a b ↔
      NoPanic overflowChecks a b ∧ ¬ Stretched a b ∧ ¬ Stretched b a := by
  constructor
  · intro h
    have hno : NoPanic overflowChecks a b := by
      by_contra hp
      obtain ⟨d, hd⟩ := h.total
      rw [xorDistance_panics hp] at hd
      cases hd
    have honly := h.zeroOnly _ (xorDistance_eq hno)
    refine ⟨hno, fun hs => ?_, fun hs => ?_⟩
    · exact hs.number_ne (honly hs.zero)
    · exact hs.number_ne (honly (xorFilled_comm a b ▸ hs.zero)).symm
  · rintro ⟨hno, hab, hba⟩
    refine ⟨⟨_, xorDistance_eq hno⟩, ?_, ?_⟩
    · rw [xorDistance_eq hno, xorDistance_eq hno.symm, xorFilled_comm]
    · intro d hd hzero
      rw [xorDistance_eq hno, Option.some.injEq] at hd
      subst hd
      rcases Nat.le_total a.length b.length with hle | hle
      · exact number_eq_of_zero hle hzero hab
      · exact (number_eq_of_zero hle (xorFilled_comm a b ▸ hzero) hba).symm

/-! ## The closest peers -/

theorem sortByKeyOrPanic_eq {R : Type} {key : R → Option Bytes} {f : R → Bytes} {l : List R}
    (h : l.length < 2 ∨ ∀ r ∈ l, key r = some (f r)) :
    sortByKeyOrPanic key l = some (sortByKey (fun r => byteKey (f r)) l) := by
  by_cases hlen : l.length < 2
  · rw [sortByKeyOrPanic, if_pos hlen]
    rcases l with _ | ⟨r, _ | ⟨r', l⟩⟩
    · rfl
    · rfl
    · simp at hlen
  · have hkey := h.resolve_left hlen
    have hall : (l.all fun r => (key r).isSome) = true := by
      rw [List.all_eq_true]
      intro r hr
      rw [hkey r hr, Option.isSome_some]
    rw [sortByKeyOrPanic, if_neg hlen, if_pos hall, sortByKey, sortByKey, Option.some.injEq]
    have hmap := List.map_insertionSort (fun r r' => byteKey ((key r).getD []) ≤
      byteKey ((key r').getD [])) (fun r r' => byteKey (f r) ≤ byteKey (f r')) id l
      (fun r hr r' hr' => by rw [hkey r hr, hkey r' hr']; rfl)
    simpa using hmap

theorem sortByKeyOrPanic_panics {R : Type} {key : R → Option Bytes} {l : List R} {r : R}
    (hlen : 2 ≤ l.length) (hr : r ∈ l) (h : key r = none) : sortByKeyOrPanic key l = none := by
  have hall : ¬ (l.all fun r => (key r).isSome) = true := by
    intro hall
    simpa [h] using List.all_eq_true.mp hall r hr
  rw [sortByKeyOrPanic, if_neg (by omega), if_neg hall]

namespace PeerRegistry

/-- The first `k` of the peers by their distance to the target. -/
structure IsClosest (peers : List PeerIdentity) (target : PeerId) (k : Nat)
    (listing : List PeerIdentity) : Prop where
  count : listing.length = min k peers.length
  once : (listing.map PeerIdentity.peerId).Nodup
  listed : ∀ id ∈ listing, id ∈ peers
  ordered : listing.Pairwise fun p q =>
    distance p.peerId.toBytes target.toBytes ≤ distance q.peerId.toBytes target.toBytes
  nearest : ∀ id ∈ listing, ∀ out ∈ peers, out ∉ listing →
    distance id.peerId.toBytes target.toBytes ≤ distance out.peerId.toBytes target.toBytes

/-- The known peers that are eligible. -/
def eligiblePeers (reg : PeerRegistry) : List PeerIdentity :=
  eligible reg.ads reg.identities.rows

/-- However the map of identities is iterated, `closest_peers` returns the closest. -/
def ClosestExact (overflowChecks : Bool) (reg : PeerRegistry) (target : PeerId) : Prop :=
  ∀ values, values.Perm reg.identities.rows → ∀ k, ∃ listing,
    closestPeers overflowChecks reg.ads values target k = some listing ∧
      IsClosest reg.eligiblePeers target k listing

/-- No distance to the target panics, or none is computed. -/
def NonePanics (overflowChecks : Bool) (peers : List PeerIdentity) (target : PeerId) : Prop :=
  peers.length < 2 ∨ ∀ id ∈ peers, NoPanic overflowChecks id.peerId.toBytes target.toBytes

/-- Of two peers, the one that the filled-up ids put first is at least as close. -/
def FilledInOrder (peers : List PeerIdentity) (target : PeerId) : Prop :=
  ∀ p ∈ peers, ∀ q ∈ peers,
    byteKey (xorFilled p.peerId.toBytes target.toBytes) ≤
      byteKey (xorFilled q.peerId.toBytes target.toBytes) →
    distance p.peerId.toBytes target.toBytes ≤ distance q.peerId.toBytes target.toBytes

section Closest

variable {reg : PeerRegistry} {values peers : List PeerIdentity} {target : PeerId} {k : Nat}

theorem closestPeers_eq (h : NonePanics overflowChecks (eligible reg.ads values) target)
    (hk : k ≠ 0) :
    closestPeers overflowChecks reg.ads values target k =
      some ((sortByKey (fun id => byteKey (xorFilled id.peerId.toBytes target.toBytes))
        (eligible reg.ads values)).take k) := by
  have hkeys : (eligible reg.ads values).length < 2 ∨ ∀ id ∈ eligible reg.ads values,
      xorDistance overflowChecks id.peerId.toBytes target.toBytes =
        some (xorFilled id.peerId.toBytes target.toBytes) :=
    h.imp_right fun hno id hid => xorDistance_eq (hno id hid)
  rw [closestPeers, if_neg hk, sortByKeyOrPanic_eq hkeys, Option.map_some]

theorem NonePanics.perm {peers' : List PeerIdentity} (hperm : peers'.Perm peers)
    (h : NonePanics overflowChecks peers target) : NonePanics overflowChecks peers' target := by
  unfold NonePanics
  rw [hperm.length_eq]
  exact h.imp_right fun hno id hid => hno id (hperm.mem_iff.mp hid)

theorem eligible_perm (h : values.Perm reg.identities.rows) :
    (eligible reg.ads values).Perm reg.eligiblePeers := h.filter _

theorem isClosest_zero : IsClosest peers target 0 [] :=
  ⟨by simp, by simp, by simp, by simp, by simp⟩

/-- The front of a sorted list holds the closest, if the sort is by distance. -/
theorem isClosest_take {sorted : List PeerIdentity} (hperm : sorted.Perm peers)
    (hnodup : (peers.map PeerIdentity.peerId).Nodup)
    (hsorted : sorted.Pairwise fun p q =>
      distance p.peerId.toBytes target.toBytes ≤ distance q.peerId.toBytes target.toBytes)
    (k : Nat) : IsClosest peers target k (sorted.take k) := by
  have hsub : (sorted.take k).Sublist sorted := List.take_sublist ..
  refine ⟨?_, ?_, ?_, hsorted.sublist hsub, ?_⟩
  · rw [List.length_take, hperm.length_eq]
  · exact ((hperm.map _).nodup_iff.mpr hnodup).sublist (hsub.map _)
  · exact fun id hid => hperm.mem_iff.mp (hsub.subset hid)
  · intro id hid out hout hnot
    rw [← List.take_append_drop k sorted] at hsorted hperm
    rcases List.mem_append.mp (hperm.mem_iff.mpr hout) with hin | hdrop
    · exact absurd hin hnot
    · exact (List.pairwise_append.mp hsorted).2.2 id hid out hdrop

theorem nodup_eligiblePeers (reg : PeerRegistry) :
    (reg.eligiblePeers.map PeerIdentity.peerId).Nodup :=
  reg.identities.nodup.sublist (List.filter_sublist.map _)

theorem closestExact_of (hno : NonePanics overflowChecks reg.eligiblePeers target)
    (horder : FilledInOrder reg.eligiblePeers target) :
    ClosestExact overflowChecks reg target := by
  intro values hperm k
  have helig := eligible_perm hperm
  by_cases hk : k = 0
  · subst hk
    exact ⟨[], rfl, isClosest_zero⟩
  · refine ⟨_, closestPeers_eq (hno.perm helig) hk, ?_⟩
    refine isClosest_take ((sortByKey_perm_self _ _).trans helig) (nodup_eligiblePeers reg) ?_ k
    refine (pairwise_sortByKey _ _).imp_of_mem fun {p q} hp hq hle => ?_
    exact horder p (helig.mem_iff.mp (mem_sortByKey.mp hp)) q
      (helig.mem_iff.mp (mem_sortByKey.mp hq)) hle

theorem nonePanics_of_closestExact (h : ClosestExact overflowChecks reg target) :
    NonePanics overflowChecks reg.eligiblePeers target := by
  by_contra hp
  unfold NonePanics at hp
  push Not at hp
  obtain ⟨hlen, id, hid, hpanic⟩ := hp
  obtain ⟨listing, heq, -⟩ := h reg.identities.rows (List.Perm.refl _) 1
  have hnone : closestPeers overflowChecks reg.ads reg.identities.rows target 1 = none := by
    rw [closestPeers, if_neg one_ne_zero]
    exact congrArg _ (sortByKeyOrPanic_panics hlen hid (xorDistance_panics hpanic))
  rw [hnone] at heq
  cases heq

theorem filledInOrder_of_closestExact (h : ClosestExact overflowChecks reg target) :
    FilledInOrder reg.eligiblePeers target := by
  intro p hp q hq hle
  by_cases hpq : p = q
  · rw [hpq]
  · -- the sort is stable, so the map is iterated from `p` on
    have hrow : p ∈ reg.identities.rows := (List.mem_filter.mp hp).1
    have hperm : (p :: reg.identities.rows.erase p).Perm reg.identities.rows :=
      (List.perm_cons_erase hrow).symm
    have hpair : [p, q].Sublist (eligible reg.ads (p :: reg.identities.rows.erase p)) := by
      rw [eligible, List.filter_cons_of_pos (p := hasEligibleAd reg.ads) (List.mem_filter.mp hp).2,
        List.cons_sublist_cons, List.singleton_sublist, List.mem_filter]
      exact ⟨(List.mem_erase_of_ne (Ne.symm hpq)).mpr (List.mem_filter.mp hq).1,
        (List.mem_filter.mp hq).2⟩
    have hno := (nonePanics_of_closestExact h).perm (eligible_perm hperm)
    obtain ⟨listing, heq, hclosest⟩ := h _ hperm (reg.eligiblePeers.length + 1)
    rw [closestPeers_eq hno (Nat.succ_ne_zero _), Option.some.injEq, List.take_of_length_le] at heq
    · have hsorted : [p, q].Sublist listing := by
        rw [← heq]
        exact List.pair_sublist_insertionSort hle hpair
      have hpair' := hclosest.ordered.sublist hsorted
      exact (List.pairwise_cons.mp hpair').1 q (List.mem_singleton.mpr rfl)
    · rw [(sortByKey_perm_self _ _).length_eq, (eligible_perm hperm).length_eq]
      exact Nat.le_succ _

/-- **When `closest_peers` returns the closest peers.** -/
theorem closestExact_iff :
    ClosestExact overflowChecks reg target ↔
      NonePanics overflowChecks reg.eligiblePeers target ∧
        FilledInOrder reg.eligiblePeers target :=
  ⟨fun h => ⟨nonePanics_of_closestExact h, filledInOrder_of_closestExact h⟩,
    fun h => closestExact_of h.1 h.2⟩

end Closest

/-! ## Lengths of ids -/

/-- Both functions are right on all ids of these lengths. -/
def SafeLengths (overflowChecks : Bool) (lengths : Set Nat) : Prop :=
  (∀ reg target, target.toBytes.length ∈ lengths →
    (∀ id ∈ eligiblePeers reg, id.peerId.toBytes.length ∈ lengths) →
      ClosestExact overflowChecks reg target) ∧
  ∀ a b : Bytes, a.length ∈ lengths → b.length ∈ lengths → DistanceExact overflowChecks a b

/-- The lengths are equal; a build that does not check for overflow also takes the
empty slice. -/
def Compatible (overflowChecks : Bool) (m n : Nat) : Prop :=
  m = n ∨ overflowChecks = false ∧ (m = 0 ∨ n = 0)

theorem Compatible.noPanic (h : Compatible overflowChecks a.length b.length) :
    NoPanic overflowChecks a b := by
  rcases h with hlen | ⟨hoff, -⟩
  · refine Or.inr ?_
    rw [← List.length_eq_zero_iff, ← List.length_eq_zero_iff, hlen]
  · exact Or.inl hoff

theorem Compatible.or_zero {m n : Nat} (h : Compatible overflowChecks m n) :
    m = n ∨ m = 0 ∨ n = 0 :=
  h.imp_right And.right

theorem Compatible.not_stretched (h : Compatible overflowChecks a.length b.length) :
    ¬ Stretched a b := by
  rintro ⟨hd, n, rfl⟩
  have hlen := h.or_zero
  rw [List.length_append, List.length_replicate] at hlen
  have hnil : a.length = 0 := by omega
  rw [List.length_eq_zero_iff.mp hnil] at hd
  exact hd rfl

theorem filled_eq_zeroPadded {m : Nat} (h : a.length = m ∨ a = []) : filled m a = zeroPadded m a := by
  rcases h with rfl | rfl
  · simp [filled, zeroPadded]
  · rfl

theorem number_xorFilled (h : a.length = b.length ∨ a.length = 0 ∨ b.length = 0) :
    number (xorFilled a b) = distance a b := by
  have ha : a.length = max a.length b.length ∨ a = [] := by
    rw [← List.length_eq_zero_iff]
    omega
  have hb : b.length = max a.length b.length ∨ b = [] := by
    rw [← List.length_eq_zero_iff]
    omega
  rw [xorFilled, filled_eq_zeroPadded ha, filled_eq_zeroPadded hb, distance]

theorem length_xorFilled (a b : Bytes) : (xorFilled a b).length = max a.length b.length := by
  rw [xorFilled, List.length_zipWith, length_filled (le_max_left ..),
    length_filled (le_max_right ..), min_self]

/-- Comparing from the left is comparing numbers, on one length and with nothing. -/
theorem number_le_of_byteKey_le (hlen : a.length = b.length ∨ a.length = 0 ∨ b.length = 0)
    (hle : byteKey a ≤ byteKey b) : number a ≤ number b := by
  rcases hlen with hlen | hnil | hnil
  · exact (number_le_iff hlen).mpr hle
  · rw [List.length_eq_zero_iff.mp hnil]
    exact Nat.zero_le _
  · rw [List.length_eq_zero_iff.mp hnil] at hle ⊢
    have hempty : a = [] := by
      cases a with
      | nil => rfl
      | cons d a => exact absurd hle (not_le.mpr (List.nil_lt_cons d.toNat (byteKey a)))
    rw [hempty]

theorem filledInOrder_of_compatible {peers : List PeerIdentity} {target : PeerId}
    (ht : ∀ p ∈ peers, Compatible overflowChecks p.peerId.toBytes.length target.toBytes.length)
    (hp : ∀ p ∈ peers, ∀ q ∈ peers,
      Compatible overflowChecks p.peerId.toBytes.length q.peerId.toBytes.length) :
    FilledInOrder peers target := by
  intro p hpm q hqm hle
  have hpt := (ht p hpm).or_zero
  have hqt := (ht q hqm).or_zero
  have hpq := (hp p hpm q hqm).or_zero
  rw [← number_xorFilled hpt, ← number_xorFilled hqt]
  refine number_le_of_byteKey_le ?_ hle
  rw [length_xorFilled, length_xorFilled]
  omega

/-- The longer of two runs of one byte is the shorter one filled up. -/
theorem compatible_of_distanceExact {m n : Nat} (hlt : m < n)
    (h : DistanceExact overflowChecks (List.replicate m 1) (List.replicate n 1)) :
    Compatible overflowChecks m n := by
  obtain ⟨hno, hnot, -⟩ := distanceExact_iff.mp h
  have hn : List.replicate n (1 : UInt8) ≠ [] := by
    rw [Ne, List.replicate_eq_nil_iff]
    omega
  cases m with
  | zero =>
    rcases hno with hoff | hboth
    · exact Or.inr ⟨hoff, Or.inl rfl⟩
    · exact absurd (hboth.mp rfl) hn
  | succ m =>
    have hhead : (List.replicate (m + 1) (1 : UInt8)).headD 0 = 1 := rfl
    refine absurd ⟨by rw [hhead]; decide, n - (m + 1) - 1, ?_⟩ hnot
    rw [hhead, List.replicate_append_replicate]
    congr 1
    omega

/-- **The safe lengths.** -/
theorem safeLengths_iff (lengths : Set Nat) :
    SafeLengths overflowChecks lengths ↔
      ∀ m ∈ lengths, ∀ n ∈ lengths, Compatible overflowChecks m n := by
  constructor
  · rintro ⟨-, hdistance⟩ m hm n hn
    have hexact : ∀ m ∈ lengths, ∀ n ∈ lengths, DistanceExact overflowChecks
        (List.replicate m 1) (List.replicate n 1) := by
      intro m hm n hn
      exact hdistance _ _ (by simpa using hm) (by simpa using hn)
    rcases lt_trichotomy m n with hlt | heq | hgt
    · exact compatible_of_distanceExact hlt (hexact m hm n hn)
    · exact Or.inl heq
    · have hsymm := compatible_of_distanceExact hgt (hexact n hn m hm)
      exact hsymm.imp Eq.symm (And.imp_right Or.symm)
  · intro h
    refine ⟨fun reg target ht hids => closestExact_iff.mpr ⟨?_, ?_⟩, fun a b ha hb => ?_⟩
    · exact Or.inr fun id hid => (h _ (hids id hid) _ ht).noPanic
    · exact filledInOrder_of_compatible (fun p hp => h _ (hids p hp) _ ht)
        fun p hp q hq => h _ (hids p hp) _ (hids q hq)
    · exact distanceExact_iff.mpr ⟨(h _ ha _ hb).noPanic, (h _ ha _ hb).not_stretched,
        (h _ hb _ ha).not_stretched⟩

/-- **Closest peers by the XOR metric.**  `closest_peers` is right about a target when
no distance panics and the filled-up ids are in the order of the distances;
`xor_distance` is right about two slices when it does not panic and neither is the other
with copies of its nonzero first byte put in front.  Ids of some lengths are safe
exactly when the lengths are all equal, apart from empty ids. -/
theorem xorMetric_iff (overflowChecks : Bool) :
    (∀ reg target, ClosestExact overflowChecks reg target ↔
      NonePanics overflowChecks reg.eligiblePeers target ∧
        FilledInOrder reg.eligiblePeers target) ∧
    (∀ a b, DistanceExact overflowChecks a b ↔
      NoPanic overflowChecks a b ∧ ¬ Stretched a b ∧ ¬ Stretched b a) ∧
    ∀ lengths, SafeLengths overflowChecks lengths ↔
      ∀ m ∈ lengths, ∀ n ∈ lengths, Compatible overflowChecks m n :=
  ⟨fun _ _ => closestExact_iff, fun _ _ => distanceExact_iff, safeLengths_iff⟩

/-- An id of an ed25519 key: the key in full, behind the header of an identity hash. -/
def ed25519Id : PeerId := ⟨[0x00, 0x24, 0x08, 0x01, 0x12, 0x20] ++ List.replicate 32 0x07⟩

/-- An id of an RSA key: a SHA-256 hash. -/
def rsaId : PeerId := ⟨[0x12, 0x20] ++ List.replicate 32 0x07⟩

/-- An id of a secp256k1 key, one byte longer than that of an ed25519 key. -/
def secp256k1Id : PeerId := ⟨[0x00, 0x25, 0x08, 0x02, 0x12, 0x21, 0x02] ++ List.replicate 32 0x07⟩

/-- A registry with an RSA and a secp256k1 peer. -/
def mixedRegistry : PeerRegistry :=
  after Externals.bare [.upsert { adOf 4 with peerId := rsaId },
    .upsert { adOf 5 with peerId := secp256k1Id }]

theorem mixed_ids_out_of_order :
    (closestPeers false mixedRegistry.ads mixedRegistry.identities.rows ed25519Id 2).map
        (fun listing => listing.map PeerIdentity.peerId) = some [secp256k1Id, rsaId] ∧
      distance rsaId.toBytes ed25519Id.toBytes < distance secp256k1Id.toBytes ed25519Id.toBytes ∧
      ¬ ClosestExact false mixedRegistry ed25519Id ∧
      xorDistance false [5] [5, 5] = some [0, 0] ∧ ¬ DistanceExact false [5] [5, 5] := by
  have hlisted : (closestPeers false mixedRegistry.ads mixedRegistry.identities.rows ed25519Id 2).map
      (fun listing => listing.map PeerIdentity.peerId) = some [secp256k1Id, rsaId] := by
    decide +kernel
  have hfarther : distance rsaId.toBytes ed25519Id.toBytes <
      distance secp256k1Id.toBytes ed25519Id.toBytes := by
    decide +kernel
  have hzero : xorDistance false [5] [5, 5] = some [0, 0] := by decide
  refine ⟨hlisted, hfarther, fun h => ?_, hzero, fun h => ?_⟩
  · obtain ⟨listing, heq, hclosest⟩ := h _ (List.Perm.refl _) 2
    rw [heq, Option.map_some, Option.some.injEq] at hlisted
    obtain ⟨p, rest, rfl, hp, hrest⟩ := List.map_eq_cons_iff.mp hlisted
    obtain ⟨q, rest, rfl, hq, -⟩ := List.map_eq_cons_iff.mp hrest
    have hle := (List.pairwise_cons.mp hclosest.ordered).1 q (by simp)
    rw [hp, hq] at hle
    exact absurd hfarther (not_lt.mpr hle)
  · have hne : number [5] ≠ number [5, 5] := by decide +kernel
    exact hne (h.zeroOnly _ hzero (by simp))

end PeerRegistry

end Parseh.Core
