import Mathlib.Algebra.Order.BigOperators.Group.List
import EigenOS.Net.DnsNames

/-!
# Encoding names

`encode_dns_name` splits a host name at its dots and `parse_dns_name` joins labels with dots.  The
encoder looks at the length of each label only, when it comes to it; the decoder counts labels and
characters.
-/

namespace EigenOS.Net

/-- Labels with their lengths before them, and the zero that ends them. -/
def encodedLabels (labels : List (List UInt8)) : List UInt8 :=
  labels.flatMap (fun label => UInt8.ofNat label.length :: label) ++ [0]

def dotted (labels : List (List UInt8)) : List UInt8 := labels.flatMap fun label => label ++ [46]

def dottedLength (labels : List (List UInt8)) : ℕ := (labels.map fun label => label.length + 1).sum

/-- The query as `dns_query_once` writes it: an id, a wish for recursion, one question, and behind
the name the type and the class. -/
def queryBytes (id : UInt16) (name : List UInt8) : List UInt8 :=
  [UInt8.ofNat (id.toNat / 256), UInt8.ofNat (id.toNat % 256), 0x01, 0x00, 0, 1, 0, 0, 0, 0, 0, 0] ++
    name ++ [0, 1, 0, 1]

/-- Labels as a message may hold them. -/
def IsLabelSequence (bytes : List UInt8) : Prop :=
  ∃ labels : List (List UInt8), (∀ label ∈ labels, label ≠ [] ∧ label.length ≤ 63) ∧
    bytes = encodedLabels labels

/-- The same name up to a dot at the end of one of the two. -/
def SameUpToDot (left right : List UInt8) : Prop :=
  left = right ∨ left = right ++ [46] ∨ right = left ++ [46]

/-- What is written for a name lies in the query.  A name with an empty or an overlong label is
rejected, and any other is rejected or becomes a label sequence that fits the query and that the
decoder turns back to the name. -/
structure RoundTrips (hostname : List UInt8) : Prop where
  inside : dnsHeaderSize + (encodeDnsName hostname).written.length ≤ 512
  rejects : (∃ label ∈ hostLabels hostname, label = [] ∨ 63 < label.length) →
    (encodeDnsName hostname).accepted = false
  encodes : ∀ name, encodeDnsName hostname = ⟨true, name⟩ →
    IsLabelSequence name ∧ dnsHeaderSize + name.length + 4 ≤ 512 ∧
      ∀ id, ∃ decoded,
        parseDnsName (queryBytes id name) 1 dnsHeaderSize =
          .ok (dnsHeaderSize + name.length) decoded ∧ SameUpToDot decoded hostname

/-- One of the labels is overlong, and those before it fit the query behind its header. -/
def RejectedInTime (labels : List (List UInt8)) : Prop :=
  (∃ label ∈ labels, 63 < label.length) ∧
    dnsHeaderSize + dottedLength (labels.takeWhile (·.length ≤ 63)) ≤ 512

/-- The labels are not empty, 16 at most, and take 255 characters at most with their dots. -/
def Decodable (labels : List (List UInt8)) : Prop :=
  (∀ label ∈ labels, label ≠ []) ∧ labels.length ≤ 16 ∧ dottedLength labels ≤ 255

/-! ## Splitting at dots -/

theorem dotted_eq_intercalate (labels : List (List UInt8)) (h : labels ≠ []) :
    dotted labels = [46].intercalate labels ++ [46] := by
  induction labels with
  | nil => exact absurd rfl h
  | cons label rest ih =>
      cases rest with
      | nil => simp [dotted]
      | cons second rest =>
          have hrest := ih (List.cons_ne_nil _ _)
          unfold dotted at hrest ⊢
          rw [List.flatMap_cons, hrest, List.intercalate_cons_cons]
          simp only [List.append_assoc]

theorem intercalate_append_nil (labels : List (List UInt8)) :
    [46].intercalate (labels ++ [[]]) = dotted labels := by
  cases labels with
  | nil => rfl
  | cons label rest =>
      have hdots := dotted_eq_intercalate ((label :: rest) ++ [[]]) (by simp)
      have hsplit : dotted ((label :: rest) ++ [[]]) = dotted (label :: rest) ++ [46] := by
        simp [dotted]
      rw [hsplit] at hdots
      exact (List.append_cancel_right hdots).symm

/-- The labels of a host name, each with its dot, are the name up to its last dot. -/
theorem sameUpToDot_hostLabels (hostname : List UInt8) :
    SameUpToDot (dotted (hostLabels hostname)) hostname := by
  have hjoin : [46].intercalate (hostname.splitOn 46) = hostname := List.intercalate_splitOn 46
  unfold hostLabels
  dsimp only
  split
  · rename_i hlast
    have hsplit := List.dropLast_append_getLast? [] hlast
    left
    rw [← intercalate_append_nil, hsplit, hjoin]
  · right
    left
    rw [dotted_eq_intercalate _ (List.splitOn_ne_nil 46 hostname), hjoin]

/-! ## Decoding what was encoded -/

section Decode

variable {msg : List UInt8} {off : ℕ} {b : UInt8} {rest : List UInt8}

theorem lt_of_drop_eq_cons (h : msg.drop off = b :: rest) : off < msg.length := by
  by_contra hle
  rw [List.drop_eq_nil_of_le (Nat.le_of_not_lt hle)] at h
  cases h

theorem getD_of_drop_eq_cons (h : msg.drop off = b :: rest) : msg.getD off 0 = b := by
  have hget : msg[off]? = some b := by
    have hhead := congrArg List.head? h
    rwa [List.head?_drop] at hhead
  rw [List.getD_eq_getElem?_getD, hget]
  rfl

theorem drop_succ_of_drop_eq_cons (h : msg.drop off = b :: rest) : msg.drop (off + 1) = rest := by
  rw [← List.drop_drop, h]
  rfl

theorem encodedLabels_cons (label : List UInt8) (labels : List (List UInt8)) :
    encodedLabels (label :: labels) =
      UInt8.ofNat label.length :: (label ++ encodedLabels labels) := by
  simp only [encodedLabels, List.flatMap_cons, List.cons_append, List.append_assoc]

theorem length_encodedLabels (labels : List (List UInt8)) :
    (encodedLabels labels).length = dottedLength labels + 1 := by
  induction labels with
  | nil => rfl
  | cons label labels ih =>
      rw [encodedLabels_cons, List.length_cons, List.length_append, ih]
      simp only [dottedLength, List.map_cons, List.sum_cons]
      omega

theorem parseLabels_encodedLabels (recur : ℕ → NameParse) (post : List UInt8)
    {labels : List (List UInt8)} (hlabels : ∀ label ∈ labels, label ≠ [] ∧ label.length ≤ 63) :
    ∀ (left off : ℕ) (out : List UInt8), msg.drop off = encodedLabels labels ++ post →
      out.length < 256 →
      parseLabels msg recur left off out =
        if labels.length ≤ left ∧ out.length + dottedLength labels < 256 then
          .ok (off + dottedLength labels + 1) (out ++ dotted labels)
        else .bad := by
  induction labels with
  | nil =>
      intro left off out hdrop hout
      have hzero : msg.drop off = 0 :: post := hdrop
      unfold parseLabels
      rw [if_pos (lt_of_drop_eq_cons hzero), getD_of_drop_eq_cons hzero]
      simp [dottedLength, dotted, hout]
  | cons label labels ih =>
      intro left off out hdrop hout
      obtain ⟨hnonempty, hshort⟩ := hlabels label List.mem_cons_self
      have hpos : 0 < label.length := List.length_pos_iff.mpr hnonempty
      rw [encodedLabels_cons, List.cons_append] at hdrop
      have htail := drop_succ_of_drop_eq_cons hdrop
      have hbyte : (msg.getD off 0).toNat = label.length := by
        rw [getD_of_drop_eq_cons hdrop, UInt8.toNat_ofNat']
        omega
      have hlength : off + 1 + label.length ≤ msg.length := by
        have hsize := congrArg List.length htail
        simp only [List.length_drop, List.length_append] at hsize
        omega
      have hlabel : (msg.drop (off + 1)).take label.length = label := by
        rw [htail, List.append_assoc, List.take_left]
      have hnext : msg.drop (off + 1 + label.length) = encodedLabels labels ++ post := by
        rw [← List.drop_drop, htail, List.append_assoc, List.drop_left]
      obtain ⟨hlarge, hsmall⟩ := and_C0_of_lt (b := label.length) (by omega)
      have hkind : label.length &&& 0xC0 = 0 := hsmall.mpr (by omega)
      have hdotted : dottedLength (label :: labels) = label.length + 1 + dottedLength labels := rfl
      unfold parseLabels
      rw [if_pos (lt_of_drop_eq_cons hdrop)]
      dsimp only
      rw [hbyte, if_neg hpos.ne', hkind, if_neg (by decide), if_neg (not_not.mpr rfl),
        if_neg (Nat.not_lt.mpr hlength)]
      by_cases hlong : 256 ≤ out.length + label.length + 1
      · rw [if_pos hlong, if_neg]
        rintro ⟨_, hfits⟩
        omega
      rw [if_neg hlong]
      cases left with
      | zero =>
          rw [if_neg]
          rintro ⟨hcount, _⟩
          simp at hcount
      | succ left =>
          have hout' : (out ++ label ++ [46]).length = out.length + label.length + 1 := by
            simp only [List.length_append, List.length_singleton]
          dsimp only
          rw [hlabel, ih (fun l hl => hlabels l (List.mem_cons_of_mem _ hl)) left _ _ hnext
            (by omega), hout']
          have hcond : (labels.length ≤ left ∧
              out.length + label.length + 1 + dottedLength labels < 256) ↔
              ((label :: labels).length ≤ left + 1 ∧
                out.length + dottedLength (label :: labels) < 256) := by
            rw [List.length_cons, hdotted]
            omega
          have hoff : off + 1 + label.length + dottedLength labels + 1 =
              off + dottedLength (label :: labels) + 1 := by
            rw [hdotted]
            omega
          rw [if_congr hcond rfl rfl, hoff]
          simp only [dotted, List.flatMap_cons, List.append_assoc]

theorem parseDnsName_queryBytes {labels : List (List UInt8)}
    (hlabels : ∀ label ∈ labels, label ≠ [] ∧ label.length ≤ 63) (id : UInt16) :
    parseDnsName (queryBytes id (encodedLabels labels)) 1 dnsHeaderSize =
      if labels.length ≤ 16 ∧ dottedLength labels < 256 then
        .ok (dnsHeaderSize + (encodedLabels labels).length) (dotted labels)
      else .bad := by
  have hdrop : (queryBytes id (encodedLabels labels)).drop dnsHeaderSize =
      encodedLabels labels ++ [0, 1, 0, 1] := rfl
  have hparse := parseLabels_encodedLabels (parseDnsName (queryBytes id (encodedLabels labels)) 0)
    [0, 1, 0, 1] hlabels 16 dnsHeaderSize [] hdrop (by decide)
  rw [List.length_nil, Nat.zero_add, List.nil_append] at hparse
  rw [length_encodedLabels]
  exact hparse

end Decode

/-! ## The round trip -/

theorem encodeLabels_of_short {labels : List (List UInt8)}
    (h : ∀ label ∈ labels, label.length ≤ 63) (dst : List UInt8) :
    encodeLabels labels dst = ⟨true, dst ++ encodedLabels labels⟩ := by
  induction labels generalizing dst with
  | nil => rfl
  | cons label labels ih =>
      obtain ⟨hlabel, hrest⟩ := List.forall_mem_cons.mp h
      unfold encodeLabels
      rw [if_neg (Nat.not_lt.mpr hlabel), ih hrest, encodedLabels_cons]
      simp only [List.append_assoc, List.cons_append]

theorem encodeLabels_of_long {labels : List (List UInt8)} (h : ∃ label ∈ labels, 63 < label.length)
    (dst : List UInt8) :
    (encodeLabels labels dst).accepted = false ∧
      (encodeLabels labels dst).written.length =
        dst.length + dottedLength (labels.takeWhile (·.length ≤ 63)) := by
  induction labels generalizing dst with
  | nil => simp at h
  | cons label labels ih =>
      unfold encodeLabels
      by_cases hlabel : 63 < label.length
      · rw [if_pos hlabel, List.takeWhile_cons_of_neg (by simpa using hlabel)]
        exact ⟨rfl, rfl⟩
      · have hrest : ∃ label ∈ labels, 63 < label.length := by
          simpa only [List.exists_mem_cons_iff, hlabel, false_or] using h
        obtain ⟨hrejected, hlength⟩ := ih hrest (dst ++ UInt8.ofNat label.length :: label)
        rw [if_neg hlabel, List.takeWhile_cons_of_pos (by simpa using hlabel), hlength]
        refine ⟨hrejected, ?_⟩
        simp only [dottedLength, List.length_append, List.length_cons, List.map_cons,
          List.sum_cons]
        omega

/-- A host name is rejected as it should be or makes the round trip if and only if one of its
labels is over 63 bytes and those before it fit the query, or none is empty and they are as few
and short as the decoder takes. -/
theorem roundTrips_iff (hostname : List UInt8) :
    RoundTrips hostname ↔
      RejectedInTime (hostLabels hostname) ∨ Decodable (hostLabels hostname) := by
  by_cases hlong : ∃ label ∈ hostLabels hostname, 63 < label.length
  · obtain ⟨hrejected, hlength⟩ := encodeLabels_of_long hlong []
    rw [List.length_nil, Nat.zero_add] at hlength
    constructor
    · intro h
      have hinside := h.inside
      rw [encodeDnsName, hlength] at hinside
      exact .inl ⟨hlong, hinside⟩
    · intro h
      refine ⟨?_, fun _ => hrejected, fun name haccepted => ?_⟩
      · rw [encodeDnsName, hlength]
        rcases h with ⟨_, hfits⟩ | ⟨_, _, hchars⟩
        · exact hfits
        · have hprefix : dottedLength ((hostLabels hostname).takeWhile (·.length ≤ 63)) ≤
              dottedLength (hostLabels hostname) :=
            ((List.takeWhile_sublist _).map _).sum_le_sum (fun _ _ => Nat.zero_le _)
          unfold dnsHeaderSize
          omega
      · rw [encodeDnsName] at haccepted
        rw [haccepted] at hrejected
        cases hrejected
  · have hshort : ∀ label ∈ hostLabels hostname, label.length ≤ 63 := fun label hmem =>
      Nat.le_of_not_lt fun hlarge => hlong ⟨label, hmem, hlarge⟩
    have hsome : encodeDnsName hostname = ⟨true, encodedLabels (hostLabels hostname)⟩ :=
      encodeLabels_of_short hshort []
    constructor
    · intro h
      right
      have hnonempty : ∀ label ∈ hostLabels hostname, label ≠ [] := by
        intro label hmem hempty
        have hrejected := h.rejects ⟨label, hmem, .inl hempty⟩
        rw [hsome] at hrejected
        cases hrejected
      obtain ⟨_, _, hdecodes⟩ := h.encodes _ hsome
      obtain ⟨decoded, hparse, _⟩ := hdecodes 0
      rw [parseDnsName_queryBytes fun label hmem => ⟨hnonempty label hmem, hshort label hmem⟩]
        at hparse
      split at hparse
      · rename_i hfits
        exact ⟨hnonempty, hfits.1, Nat.le_of_lt_succ hfits.2⟩
      · cases hparse
    · rintro (⟨hlarge, _⟩ | ⟨hnonempty, hcount, hchars⟩)
      · exact absurd hlarge hlong
      have hlabels : ∀ label ∈ hostLabels hostname, label ≠ [] ∧ label.length ≤ 63 :=
        fun label hmem => ⟨hnonempty label hmem, hshort label hmem⟩
      have hlength := length_encodedLabels (hostLabels hostname)
      refine ⟨?_, ?_, ?_⟩
      · rw [hsome, hlength]
        unfold dnsHeaderSize
        omega
      · rintro ⟨label, hmem, hempty | hlarge⟩
        · exact absurd hempty (hnonempty label hmem)
        · exact absurd hlarge (Nat.not_lt.mpr (hshort label hmem))
      · intro name hname
        cases hsome.symm.trans hname
        refine ⟨⟨_, hlabels, rfl⟩, ?_, ?_⟩
        · rw [hlength]
          unfold dnsHeaderSize
          omega
        · intro id
          refine ⟨dotted (hostLabels hostname), ?_, sameUpToDot_hostLabels hostname⟩
          rw [parseDnsName_queryBytes hlabels, if_pos ⟨hcount, Nat.lt_succ_of_le hchars⟩]

/-- `a..b`. -/
def doubledDot : List UInt8 := [97, 46, 46, 98]

theorem not_roundTrips_doubledDot : ¬ RoundTrips doubledDot := by
  intro h
  have hreject := h.rejects ⟨[], by decide, .inl rfl⟩
  exact absurd hreject (by decide)

end EigenOS.Net
