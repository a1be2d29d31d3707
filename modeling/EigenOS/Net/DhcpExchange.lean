import EigenOS.Net.Dhcp

/-!
# What a REQUEST and a configuration carry

Every address that `dhcp_recv` takes from the packet is converted once when it is read and once
when it is stored or sent.  The address of the server comes from `udp_recv`, in network order, and
is converted when it is sent.
-/

namespace EigenOS.Net

open ByteLayout TagLength

/-! ## Words in memory -/

@[simp]
theorem length_wordBytes (n : UInt32) : (wordBytes n).length = 4 := length_littleEndian 4 _

theorem wordBytes_word {bytes : List UInt8} (hlength : 4 ≤ bytes.length) :
    wordBytes (word bytes) = bytes.take 4 := by
  have htake : (bytes.take 4).length = 4 := by rw [List.length_take, Nat.min_eq_left hlength]
  have hlt : fromLittleEndian (bytes.take 4) < 2 ^ 32 := by
    have h := fromLittleEndian_lt (bytes.take 4)
    rw [htake] at h
    exact h
  calc
    wordBytes (word bytes)
      = littleEndian 4 (fromLittleEndian (bytes.take 4)) := by
        rw [wordBytes, word, UInt32.toNat_ofNat', Nat.mod_eq_of_lt hlt]
    _ = littleEndian (bytes.take 4).length (fromLittleEndian (bytes.take 4)) := by rw [htake]
    _ = bytes.take 4 := littleEndian_fromLittleEndian _

theorem word_wordBytes (n : UInt32) : word (wordBytes n) = n := by
  apply UInt32.toNat_inj.mp
  rw [word, List.take_of_length_le (length_wordBytes n).le, wordBytes, UInt32.toNat_ofNat',
    fromLittleEndian_littleEndian]
  exact (Nat.mod_mod _ _).trans (Nat.mod_eq_of_lt n.toNat_lt)

theorem wordBytes_injective : Function.Injective wordBytes := by
  intro left right heq
  rw [← word_wordBytes left, heq, word_wordBytes]

theorem word_take {bytes : List UInt8} {count : ℕ} (hcount : 4 ≤ count) :
    word (bytes.take count) = word bytes := by
  rw [word, List.take_take, Nat.min_eq_left hcount, word]

theorem htonl_eq_zero_iff {n : UInt32} : htonl n = 0 ↔ n = 0 := by
  constructor
  · intro h
    calc
      n = htonl (htonl n) := (htonl_htonl n).symm
      _ = 0 := by rw [h]; rfl
  · intro h
    rw [h]
    rfl

/-! ## The options of a packet -/

/-- The options in a block: pads are passed over. -/
def dhcpEntries (options : List UInt8) : List Entry := entries 0 dhcpOptEnd options

/-- The address that a packet has in an option: the first four bytes of the last one that has so
many. -/
def optionAddress (tag : UInt8) (options : List UInt8) : Option (List UInt8) :=
  (lastValue tag 4 (dhcpEntries options)).map (List.take 4)

section Parse

variable {options : List UInt8} {behind : UInt8} {off : ℕ} {fields : DhcpFields}

theorem dhcpEntries_drop_of_end (hlength : options.length = dhcpOptionsSize)
    (hend : dhcpOptionsSize ≤ off + 1) : dhcpEntries (options.drop off) = [] := by
  by_cases hoff : off < options.length
  · rw [drop_eq_getD_cons _ _ hoff, List.drop_eq_nil_of_le (by omega)]
    exact entries_singleton _
  · rw [List.drop_eq_nil_of_le (Nat.not_lt.mp hoff)]
    rfl

section Tagged

variable (hlength : options.length = dhcpOptionsSize) (hoff : off + 1 < dhcpOptionsSize)
  (hstop : options.getD off 0 ≠ dhcpOptEnd) (hpad : options.getD off 0 ≠ 0)

include hlength hoff hstop hpad

theorem dhcpEntries_drop_of_not_fits
    (hlong : dhcpOptionsSize < off + 2 + (options.getD (off + 1) 0).toNat) :
    dhcpEntries (options.drop off) = [] := by
  rw [drop_eq_getD_cons _ off (by omega), drop_eq_getD_cons _ (off + 1) (by omega)]
  apply entries_of_not_fits hstop hpad
  rw [List.length_drop]
  omega

theorem dhcpEntries_drop_of_fits
    (hfits : off + 2 + (options.getD (off + 1) 0).toNat ≤ dhcpOptionsSize) :
    dhcpEntries (options.drop off) =
      ⟨options.getD off 0, (options.drop (off + 2)).take (options.getD (off + 1) 0).toNat⟩ ::
        dhcpEntries (options.drop (off + 2 + (options.getD (off + 1) 0).toNat)) := by
  have hvalue : (options.getD (off + 1) 0).toNat ≤ (options.drop (off + 2)).length := by
    rw [List.length_drop]
    omega
  calc
    dhcpEntries (options.drop off)
      = dhcpEntries (options.getD off 0 :: options.getD (off + 1) 0 :: options.drop (off + 2)) := by
        rw [drop_eq_getD_cons _ off (by omega), drop_eq_getD_cons options (off + 1) (by omega)]
    _ = _ := by
        rw [dhcpEntries, entries_of_fits hstop hpad hvalue, List.drop_drop, dhcpEntries]

end Tagged

theorem dhcpOptions_field (field : DhcpFields → UInt32) (tag : UInt8)
    (hoption : ∀ fields other olen v, field (DhcpFields.option fields other olen v) =
      if other = tag ∧ 4 ≤ olen then htonl (word v) else field fields)
    (hlength : options.length = dhcpOptionsSize) :
    field (dhcpOptions options behind off fields) =
      ((lastValue tag 4 (dhcpEntries (options.drop off))).map
        fun value => htonl (word value)).getD (field fields) := by
  fun_induction dhcpOptions options behind off fields with
  | case1 off fields hend =>
    rw [dhcpEntries_drop_of_end hlength hend]
    rfl
  | case2 off fields hend tag' hstop =>
    rw [drop_eq_getD_cons _ off (by omega)]
    rw [show options.getD off 0 = dhcpOptEnd from hstop, dhcpEntries, entries_stop]
    rfl
  | case3 off fields hend tag' hstop hpad ih =>
    rw [ih, drop_eq_getD_cons _ off (by omega), show options.getD off 0 = 0 from hpad,
      dhcpEntries, dhcpEntries, entries_pad (by decide)]
  | case4 off fields hend tag' hstop hpad olen hlong =>
    rw [dhcpEntries_drop_of_not_fits hlength (by omega) hstop hpad hlong]
    rfl
  | case5 off fields hend tag' hstop hpad olen hlong ih =>
    have hfits : off + 2 + olen.toNat ≤ dhcpOptionsSize := Nat.not_lt.mp hlong
    have htake : ((options.drop (off + 2)).take olen.toNat).length = olen.toNat := by
      rw [List.length_take, List.length_drop]
      omega
    rw [ih, hoption, dhcpEntries_drop_of_fits hlength (by omega) hstop hpad hfits]
    by_cases hset : tag' = tag ∧ 4 ≤ olen
    · have hfour : 4 ≤ olen.toNat := UInt8.le_iff_toNat_le.mp hset.2
      have hword : word ((options ++ [behind]).drop (off + 2)) =
          word ((options.drop (off + 2)).take olen.toNat) := by
        rw [word_take hfour, List.drop_append_of_le_length (by omega), word, word,
          List.take_append_of_le_length (by rw [List.length_drop]; omega)]
      rw [if_pos hset, lastValue_cons_of_eq ⟨hset.1, by rw [htake]; exact hfour⟩, hword,
        Option.map_some, Option.getD_some, Option.getD_map]
    · rw [if_neg hset, lastValue_cons_of_ne]
      rw [htake]
      exact fun h => hset ⟨h.1, UInt8.le_iff_toNat_le.mpr h.2⟩

theorem dhcpOptions_other (field : DhcpFields → UInt32)
    (hoption : ∀ fields other olen v,
      field (DhcpFields.option fields other olen v) = field fields) :
    field (dhcpOptions options behind off fields) = field fields := by
  fun_induction dhcpOptions options behind off fields with
  | case1 => rfl
  | case2 => rfl
  | case3 off fields hend tag' hstop hpad ih => exact ih
  | case4 => rfl
  | case5 off fields hend tag' hstop hpad olen hlong ih => rw [ih, hoption]

theorem dhcpOptions_msgtype (fields' : DhcpFields) :
    fields.msgtype = fields'.msgtype →
      (dhcpOptions options behind off fields).msgtype =
        (dhcpOptions options behind off fields').msgtype := by
  fun_induction dhcpOptions options behind off fields generalizing fields' with
  | case1 off fields hend =>
    intro hsame
    rw [dhcpOptions, if_pos hend]
    exact hsame
  | case2 off fields hend tag' hstop =>
    intro hsame
    rw [dhcpOptions, if_neg hend, if_pos hstop]
    exact hsame
  | case3 off fields hend tag' hstop hpad ih =>
    intro hsame
    rw [ih fields' hsame, dhcpOptions.eq_def options behind off, if_neg hend, if_neg hstop,
      if_pos hpad]
  | case4 off fields hend tag' hstop hpad olen hlong =>
    intro hsame
    rw [dhcpOptions, if_neg hend, if_neg hstop, if_neg hpad, if_pos hlong]
    exact hsame
  | case5 off fields hend tag' hstop hpad olen hlong ih =>
    intro hsame
    rw [dhcpOptions.eq_def options behind off fields', if_neg hend, if_neg hstop, if_neg hpad,
      if_neg hlong]
    apply ih
    simp only [DhcpFields.option]
    split_ifs <;> first | rfl | exact hsame

end Parse

/-! ## What is received -/

namespace DhcpInput

variable (input : DhcpInput)

/-- The offered address. -/
def yiaddr : List UInt8 := (input.data.drop 16).take 4

/-- The options, as far as the buffer holds them. -/
def options : List UInt8 := ((input.data.take dhcpPktSize).drop 240).take dhcpOptionsSize

/-- The datagram is an OFFER of the exchange. -/
def isOffer (wantXid : UInt32) : Bool :=
  match dhcpRecv wantXid input {} with
  | none => false
  | some fields => fields.msgtype = dhcpOffer ∧ fields.yiaddr ≠ 0

end DhcpInput

section Receive

variable {wantXid : UInt32} {input : DhcpInput} {fields result : DhcpFields}

theorem length_options (hlength : dhcpPktSize ≤ input.data.length) :
    input.options.length = dhcpOptionsSize := by
  rw [DhcpInput.options, List.length_take, List.length_drop, List.length_take,
    Nat.min_eq_left hlength]
  rfl

theorem dhcpRecv_eq_some (h : dhcpRecv wantXid input fields = some result) :
    dhcpPktSize ≤ input.data.length ∧
      result = dhcpOptions input.options input.behind 0
        ({ fields with
          yiaddr := htonl (word ((input.data.take dhcpPktSize).drop 16))
          server := input.srcIp
          msgtype := 0 } : DhcpFields) := by
  rw [dhcpRecv] at h
  split_ifs at h with hshort hxid hmagic hport
  constructor
  · rw [List.length_take] at hshort
    omega
  · exact (Option.some.inj h).symm

theorem option_yiaddr (fields : DhcpFields) (tag olen : UInt8) (v : List UInt8) :
    (fields.option tag olen v).yiaddr = fields.yiaddr := by
  rw [DhcpFields.option]
  split_ifs <;> rfl

theorem dhcpRecv_yiaddr (h : dhcpRecv wantXid input fields = some result) :
    wordBytes (htonl result.yiaddr) = input.yiaddr := by
  obtain ⟨hlength, hresult⟩ := dhcpRecv_eq_some h
  have hyiaddr : result.yiaddr = htonl (word ((input.data.take dhcpPktSize).drop 16)) := by
    rw [hresult]
    exact dhcpOptions_other DhcpFields.yiaddr option_yiaddr
  rw [hyiaddr, htonl_htonl, wordBytes_word, List.drop_take, List.take_take, DhcpInput.yiaddr]
  · rfl
  · rw [List.length_drop, List.length_take, Nat.min_eq_left hlength]
    decide

theorem dhcpRecv_server (h : dhcpRecv wantXid input fields = some result) :
    result.server = input.srcIp := by
  rw [(dhcpRecv_eq_some h).2]
  apply dhcpOptions_other DhcpFields.server
  intro fields tag olen v
  rw [DhcpFields.option]
  split_ifs <;> rfl

theorem dhcpRecv_field (field : DhcpFields → UInt32) (tag : UInt8)
    (hoption : ∀ fields other olen v, field (DhcpFields.option fields other olen v) =
      if other = tag ∧ 4 ≤ olen then htonl (word v) else field fields)
    (h : dhcpRecv wantXid input {} = some result) {bytes : List UInt8}
    (hbytes : optionAddress tag input.options = some bytes) (hzero : bytes ≠ [0, 0, 0, 0]) :
    field result ≠ 0 ∧ wordBytes (htonl (field result)) = bytes := by
  obtain ⟨hlength, hresult⟩ := dhcpRecv_eq_some h
  obtain ⟨value, hvalue, htake⟩ := Option.map_eq_some_iff.mp hbytes
  have hfour : 4 ≤ value.length := le_length_of_lastValue hvalue
  have hword : wordBytes (word value) = bytes := (wordBytes_word hfour).trans htake
  have hfield : field result = htonl (word value) := by
    rw [hresult, dhcpOptions_field field tag hoption (length_options hlength), List.drop_zero,
      hvalue, Option.map_some, Option.getD_some]
  rw [hfield, htonl_htonl]
  constructor
  · intro h0
    apply hzero
    rw [← hword, htonl_eq_zero_iff.mp h0]
    rfl
  · exact hword

end Receive

/-! ## Which OFFER is taken -/

section Offers

variable {wantXid : UInt32} {input offer : DhcpInput} {fields result : DhcpFields}

theorem dhcpRecv_map (wantXid : UInt32) (input : DhcpInput) (fields : DhcpFields) :
    (dhcpRecv wantXid input fields).map (fun result => (result.msgtype, result.yiaddr)) =
      (dhcpRecv wantXid input {}).map fun result => (result.msgtype, result.yiaddr) := by
  rw [dhcpRecv, dhcpRecv]
  split_ifs
  · rfl
  · rfl
  · rfl
  · rfl
  · rw [Option.map_some, Option.map_some]
    apply congrArg some
    apply Prod.ext
    · exact dhcpOptions_msgtype _ rfl
    · dsimp only
      rw [dhcpOptions_other DhcpFields.yiaddr option_yiaddr,
        dhcpOptions_other DhcpFields.yiaddr option_yiaddr]

theorem isOffer_of_some (h : dhcpRecv wantXid input fields = some result) :
    input.isOffer wantXid = decide (result.msgtype = dhcpOffer ∧ result.yiaddr ≠ 0) := by
  have hmap := dhcpRecv_map wantXid input fields
  rw [h, Option.map_some] at hmap
  obtain ⟨alone, halone, heq⟩ := Option.map_eq_some_iff.mp hmap.symm
  obtain ⟨hmsgtype, hyiaddr⟩ := Prod.mk.inj heq
  rw [DhcpInput.isOffer, halone, ← hmsgtype, ← hyiaddr]

theorem isOffer_of_none (h : dhcpRecv wantXid input fields = none) :
    input.isOffer wantXid = false := by
  have hmap := dhcpRecv_map wantXid input fields
  rw [h, Option.map_none, eq_comm, Option.map_eq_none_iff] at hmap
  rw [DhcpInput.isOffer, hmap]

/-- A try takes the first OFFER, and its fields are those that `dhcp_recv` wrote. -/
structure Takes (wantXid : UInt32) (inputs : List DhcpInput)
    (taken : DhcpFields × Option DhcpInput) : Prop where
  first : taken.2 = inputs.find? fun input => input.isOffer wantXid
  fields : ∀ offer, taken.2 = some offer →
    ∃ before, dhcpRecv wantXid offer before = some taken.1 ∧ taken.1.yiaddr ≠ 0

theorem tryOffer_takes (polls : List (Option DhcpInput)) (fields : DhcpFields) :
    Takes wantXid (polls.filterMap id) (tryOffer wantXid polls fields) := by
  induction polls generalizing fields with
  | nil => exact ⟨rfl, nofun⟩
  | cons poll rest ih =>
    cases poll with
    | none => exact ih fields
    | some input =>
      rw [List.filterMap_cons_some (f := id) rfl, tryOffer]
      cases hrecv : dhcpRecv wantXid input fields with
      | none =>
        constructor
        · rw [List.find?_cons_of_neg (by rw [isOffer_of_none hrecv]; exact Bool.false_ne_true)]
          exact (ih fields).first
        · exact (ih fields).fields
      | some result =>
        dsimp only
        by_cases hoffer : result.msgtype = dhcpOffer ∧ result.yiaddr ≠ 0
        · rw [if_pos hoffer]
          constructor
          · rw [List.find?_cons_of_pos (by rw [isOffer_of_some hrecv]; exact decide_eq_true hoffer)]
          · intro offer heq
            rw [← Option.some.inj heq]
            exact ⟨fields, hrecv, hoffer.2⟩
        · rw [if_neg hoffer]
          constructor
          · rw [List.find?_cons_of_neg (by rw [isOffer_of_some hrecv]; simpa using hoffer)]
            exact (ih result).first
          · exact (ih result).fields

theorem awaitOffer_takes (tries : List (List (Option DhcpInput))) (fields : DhcpFields) :
    Takes wantXid (tries.flatten.filterMap id) (awaitOffer wantXid tries fields) := by
  induction tries generalizing fields with
  | nil => exact ⟨rfl, nofun⟩
  | cons polls rest ih =>
    have htry : Takes wantXid _ _ := tryOffer_takes polls fields
    rw [List.flatten_cons, List.filterMap_append, awaitOffer]
    generalize tryOffer wantXid polls fields = taken at htry
    obtain ⟨after, found⟩ := taken
    cases found with
    | some input =>
      constructor
      · rw [List.find?_append, ← htry.first]
        rfl
      · exact htry.fields
    | none =>
      constructor
      · rw [List.find?_append, ← htry.first]
        exact (ih after).first
      · exact (ih after).fields

theorem tryAck_eq_ack {polls : List (Option DhcpInput)}
    (h : tryAck wantXid polls = .ack input fields) :
    dhcpRecv wantXid input {} = some fields := by
  induction polls with
  | nil => exact nomatch h
  | cons poll rest ih =>
    cases poll with
    | none => exact ih h
    | some other =>
      rw [tryAck] at h
      cases hrecv : dhcpRecv wantXid other {} with
      | none =>
        rw [hrecv] at h
        exact ih h
      | some result =>
        rw [hrecv] at h
        dsimp only at h
        split_ifs at h with hack hnak
        · obtain ⟨hinput, hfields⟩ := DhcpAnswer.ack.inj h
          rw [← hinput, ← hfields]
          exact hrecv
        · exact ih h

theorem awaitAck_eq_ack {tries : List (List (Option DhcpInput))}
    (h : (awaitAck wantXid tries).1 = .ack input fields) :
    dhcpRecv wantXid input {} = some fields := by
  induction tries with
  | nil => exact nomatch h
  | cons polls rest ih =>
    rw [awaitAck] at h
    cases htry : tryAck wantXid polls with
    | timeout =>
      rw [htry] at h
      exact ih h
    | nak =>
      rw [htry] at h
      exact nomatch h
    | ack other result =>
      rw [htry] at h
      obtain ⟨hinput, hfields⟩ := DhcpAnswer.ack.inj h
      rw [← hinput, ← hfields]
      exact tryAck_eq_ack htry

end Offers

/-! ## What is sent -/

section Send

variable (client : DhcpClient) (reqIp serverIp : UInt32)

/-- The option for an address, which is left out when it is zero. -/
def addressEntry (tag : UInt8) (ip : UInt32) : List Entry :=
  if ip = 0 then [] else [⟨tag, wordBytes (htonl ip)⟩]

/-- The options of a REQUEST. -/
def requestEntries : List Entry :=
  [⟨dhcpOptMsgType, [dhcpRequestType]⟩] ++ addressEntry dhcpOptReqIp reqIp ++
    addressEntry dhcpOptServerId serverIp ++
    [⟨dhcpOptClientId, List.ofFn client.mac ++ [client.behind]⟩]

theorem dhcpAddOption_eq {tag : UInt8} {value : List UInt8} {len : ℕ} (o : List UInt8)
    (hlen : value.length = len) :
    dhcpAddOption o tag len value = o ++ [(⟨tag, value⟩ : Entry)].flatMap encode := by
  rw [dhcpAddOption, List.flatMap_singleton, encode, ← hlen, List.take_length]

theorem dhcpAddOption_address (tag : UInt8) (ip : UInt32) (o : List UInt8) :
    (if dhcpRequestType = dhcpRequestType ∧ ip ≠ 0 then
      dhcpAddOption o tag 4 (wordBytes (htonl ip)) else o) =
      o ++ (addressEntry tag ip).flatMap encode := by
  by_cases hip : ip = 0
  · rw [if_neg fun h => h.2 hip, addressEntry, if_pos hip, List.flatMap_nil, List.append_nil]
  · rw [if_pos ⟨rfl, hip⟩, addressEntry, if_neg hip, dhcpAddOption_eq _ (length_wordBytes _)]

theorem mem_addressEntry {tag : UInt8} {ip : UInt32} {entry : Entry}
    (h : entry ∈ addressEntry tag ip) : entry = ⟨tag, wordBytes (htonl ip)⟩ := by
  by_cases hip : ip = 0
  · rw [addressEntry, if_pos hip] at h
    exact absurd h List.not_mem_nil
  · rw [addressEntry, if_neg hip] at h
    exact List.mem_singleton.mp h

theorem length_clientId : (List.ofFn client.mac ++ [client.behind]).length = 7 := by
  rw [List.length_append, List.length_ofFn]
  rfl

theorem dhcpEntries_dhcpSend :
    dhcpEntries (client.dhcpSend dhcpRequestType reqIp serverIp).options =
      requestEntries client reqIp serverIp := by
  have hencode : ∃ tail, (client.dhcpSend dhcpRequestType reqIp serverIp).options =
      (requestEntries client reqIp serverIp).flatMap encode ++ dhcpOptEnd :: tail := by
    have htype : dhcpAddOption [] dhcpOptMsgType 1 [dhcpRequestType] =
        [(⟨dhcpOptMsgType, [dhcpRequestType]⟩ : Entry)].flatMap encode := rfl
    rw [DhcpClient.dhcpSend]
    dsimp only
    rw [dhcpAddOption_address, dhcpAddOption_address, dhcpAddOption_eq _ (length_clientId client),
      htype, ← List.flatMap_append, ← List.flatMap_append, ← List.flatMap_append, List.append_assoc]
    exact ⟨_, rfl⟩
  obtain ⟨tail, htail⟩ := hencode
  rw [dhcpEntries, htail]
  apply entries_flatMap_encode
  intro entry hentry
  rw [requestEntries, List.mem_append, List.mem_append, List.mem_append] at hentry
  rcases hentry with ((hentry | hentry) | hentry) | hentry
  · rw [List.mem_singleton.mp hentry]
    decide
  · rw [mem_addressEntry hentry, length_wordBytes]
    exact (by decide : dhcpOptReqIp ≠ dhcpOptEnd ∧ dhcpOptReqIp ≠ 0 ∧ 4 < 256)
  · rw [mem_addressEntry hentry, length_wordBytes]
    exact (by decide : dhcpOptServerId ≠ dhcpOptEnd ∧ dhcpOptServerId ≠ 0 ∧ 4 < 256)
  · rw [List.mem_singleton.mp hentry, length_clientId]
    exact (by decide : dhcpOptClientId ≠ dhcpOptEnd ∧ dhcpOptClientId ≠ 0 ∧ 7 < 256)

theorem lastValue_addressEntry (tag : UInt8) (ip : UInt32) :
    lastValue tag 0 (addressEntry tag ip) =
      if ip = 0 then none else some (wordBytes (htonl ip)) := by
  by_cases hip : ip = 0
  · rw [addressEntry, if_pos hip, if_pos hip]
    rfl
  · rw [addressEntry, if_neg hip, if_neg hip]
    exact lastValue_singleton ⟨rfl, Nat.zero_le _⟩

theorem lastValue_addressEntry_of_ne {tag other : UInt8} (hne : other ≠ tag) (ip : UInt32) :
    lastValue tag 0 (addressEntry other ip) = none := by
  by_cases hip : ip = 0
  · rw [addressEntry, if_pos hip]
    rfl
  · rw [addressEntry, if_neg hip]
    exact lastValue_singleton_of_ne _ hne

theorem lastValue_reqIp :
    lastValue dhcpOptReqIp 0 (requestEntries client reqIp serverIp) =
      if reqIp = 0 then none else some (wordBytes (htonl reqIp)) := by
  rw [requestEntries, lastValue_append, lastValue_append, lastValue_append,
    lastValue_addressEntry, lastValue_addressEntry_of_ne (by decide),
    lastValue_singleton_of_ne _ (by decide), lastValue_singleton_of_ne _ (by decide),
    Option.none_or, Option.none_or, Option.or_none]

theorem lastValue_serverId :
    lastValue dhcpOptServerId 0 (requestEntries client reqIp serverIp) =
      if serverIp = 0 then none else some (wordBytes (htonl serverIp)) := by
  rw [requestEntries, lastValue_append, lastValue_append, lastValue_append,
    lastValue_addressEntry, lastValue_addressEntry_of_ne (by decide),
    lastValue_singleton_of_ne _ (by decide), lastValue_singleton_of_ne _ (by decide),
    Option.none_or, Option.or_none, Option.or_none]

end Send

/-! ## The exchange -/

/-- The configuration has the address, the mask, the router and the server that the packet
has. -/
structure Configures (ack : DhcpInput) (config : IfConfig) : Prop where
  ip : wordBytes config.ip = ack.yiaddr
  netmask : ∀ bytes, optionAddress dhcpOptSubnet ack.options = some bytes →
    bytes ≠ [0, 0, 0, 0] → wordBytes config.netmask = bytes
  gateway : ∀ bytes, optionAddress dhcpOptRouter ack.options = some bytes →
    bytes ≠ [0, 0, 0, 0] → wordBytes config.gateway = bytes
  dns : ∀ bytes, optionAddress dhcpOptDns ack.options = some bytes →
    bytes ≠ [0, 0, 0, 0] → wordBytes config.dns = bytes

/-- A REQUEST asks the server that the OFFER came from for the offered address. -/
structure Requests (offer : DhcpInput) (request : DhcpPkt) : Prop where
  address : lastValue dhcpOptReqIp 0 (dhcpEntries request.options) = some offer.yiaddr
  server : lastValue dhcpOptServerId 0 (dhcpEntries request.options) =
    some (wordBytes offer.srcIp)

/-- Every REQUEST follows from the OFFER, and the configuration from the ACK. -/
structure Exchanges (run : DhcpRun) : Prop where
  requests : ∀ offer, run.offer = some offer → ∀ request ∈ run.requests, Requests offer request
  configures : ∀ ack, run.ack = some ack → ∃ config, run.config = some config ∧
    Configures ack config

/-- The first OFFER that comes in while the client waits for one. -/
def DhcpEvents.firstOffer (events : DhcpEvents) (wantXid : UInt32) : Option DhcpInput :=
  ((events.offers.take 8).flatten.filterMap id).find? fun input => input.isOffer wantXid

section Exchange

variable {wantXid : UInt32} {input offer : DhcpInput} {before fields : DhcpFields}

/-! An option sets the field of its tag, and no other of these fields. -/

theorem option_mask (fields : DhcpFields) (tag olen : UInt8) (v : List UInt8) :
    (fields.option tag olen v).mask =
      if tag = dhcpOptSubnet ∧ 4 ≤ olen then htonl (word v) else fields.mask := by
  rw [DhcpFields.option]
  by_cases h : tag = dhcpOptSubnet ∧ 4 ≤ olen
  · rw [if_pos h, if_neg (ne_of_eq_of_ne h.1 (by decide)), if_pos h]
  · rw [if_neg h, if_neg h]
    split_ifs <;> rfl

theorem option_gw (fields : DhcpFields) (tag olen : UInt8) (v : List UInt8) :
    (fields.option tag olen v).gw =
      if tag = dhcpOptRouter ∧ 4 ≤ olen then htonl (word v) else fields.gw := by
  rw [DhcpFields.option]
  by_cases h : tag = dhcpOptRouter ∧ 4 ≤ olen
  · rw [if_pos h, if_neg (ne_of_eq_of_ne h.1 (by decide)),
      if_neg fun hsubnet => ne_of_eq_of_ne h.1 (by decide) hsubnet.1, if_pos h]
  · rw [if_neg h, if_neg h]
    split_ifs <;> rfl

theorem option_dns (fields : DhcpFields) (tag olen : UInt8) (v : List UInt8) :
    (fields.option tag olen v).dns =
      if tag = dhcpOptDns ∧ 4 ≤ olen then htonl (word v) else fields.dns := by
  rw [DhcpFields.option]
  by_cases h : tag = dhcpOptDns ∧ 4 ≤ olen
  · rw [if_pos h, if_neg (ne_of_eq_of_ne h.1 (by decide)),
      if_neg fun hsubnet => ne_of_eq_of_ne h.1 (by decide) hsubnet.1,
      if_neg fun hrouter => ne_of_eq_of_ne h.1 (by decide) hrouter.1, if_pos h]
  · rw [if_neg h, if_neg h]
    split_ifs <;> rfl

theorem configures_of_ack (h : dhcpRecv wantXid input {} = some fields) :
    Configures input fields.configure := by
  constructor
  · exact dhcpRecv_yiaddr h
  · intro bytes hbytes hzero
    obtain ⟨hne, hword⟩ := dhcpRecv_field _ _ option_mask h hbytes hzero
    rw [DhcpFields.configure, if_pos hne]
    exact hword
  · intro bytes hbytes hzero
    obtain ⟨hne, hword⟩ := dhcpRecv_field _ _ option_gw h hbytes hzero
    rw [DhcpFields.configure, if_pos hne]
    exact hword
  · intro bytes hbytes hzero
    obtain ⟨hne, hword⟩ := dhcpRecv_field _ _ option_dns h hbytes hzero
    rw [DhcpFields.configure, if_pos hne]
    exact hword

theorem requests_iff (client : DhcpClient) (h : dhcpRecv wantXid offer before = some fields)
    (hyiaddr : fields.yiaddr ≠ 0) :
    Requests offer (client.dhcpSend dhcpRequestType fields.yiaddr fields.server) ↔
      offer.srcIp ≠ 0 ∧ htonl offer.srcIp = offer.srcIp := by
  have haddress : lastValue dhcpOptReqIp 0
      (dhcpEntries (client.dhcpSend dhcpRequestType fields.yiaddr fields.server).options) =
        some offer.yiaddr := by
    rw [dhcpEntries_dhcpSend, lastValue_reqIp, if_neg hyiaddr, dhcpRecv_yiaddr h]
  have hserver : lastValue dhcpOptServerId 0
      (dhcpEntries (client.dhcpSend dhcpRequestType fields.yiaddr fields.server).options) =
        if offer.srcIp = 0 then none else some (wordBytes (htonl offer.srcIp)) := by
    rw [dhcpEntries_dhcpSend, lastValue_serverId, dhcpRecv_server h]
  constructor
  · intro hrequests
    have hbytes := hserver.symm.trans hrequests.server
    by_cases hsrc : offer.srcIp = 0
    · rw [if_pos hsrc] at hbytes
      exact nomatch hbytes
    · rw [if_neg hsrc] at hbytes
      exact ⟨hsrc, wordBytes_injective (Option.some.inj hbytes)⟩
  · intro ⟨hsrc, hsame⟩
    constructor
    · exact haddress
    · rw [hserver, if_neg hsrc, hsame]

end Exchange

structure RequestRun (request : DhcpPkt) (offer : DhcpInput) (wantXid : UInt32) (run : DhcpRun) :
    Prop where
  offer : run.offer = some offer
  sent : request ∈ run.requests
  same : ∀ other ∈ run.requests, other = request
  ack : ∀ input, run.ack = some input → ∃ fields, dhcpRecv wantXid input {} = some fields ∧
    run.config = some fields.configure

theorem requestRun_dhcpRequest {client : DhcpClient} {events : DhcpEvents} {offer : DhcpInput}
    {fields : DhcpFields} (hdiscovers : events.discovers = true)
    (hoffer : awaitOffer client.xid (events.offers.take 8) {} = (fields, some offer))
    (hsends : events.sends = true) :
    RequestRun (client.dhcpSend dhcpRequestType fields.yiaddr fields.server) offer client.xid
      (client.dhcpRequest events) := by
  have hagain : ∀ (request : DhcpPkt) (again : ℕ),
      ∀ other ∈ request :: List.replicate again request, other = request := by
    intro request again other hother
    rcases List.mem_cons.mp hother with rfl | hother
    · rfl
    · exact List.eq_of_mem_replicate hother
  rw [DhcpClient.dhcpRequest, if_neg (by rw [hdiscovers]; decide), hoffer]
  dsimp only
  rw [if_neg (by rw [hsends]; decide)]
  have hack : ∀ input fields,
      (awaitAck client.xid (events.answers.take 8)).1 = .ack input fields →
        dhcpRecv client.xid input {} = some fields := fun _ _ => awaitAck_eq_ack
  generalize awaitAck client.xid (events.answers.take 8) = result at hack ⊢
  obtain ⟨answer, again⟩ := result
  cases answer with
  | timeout | nak => exact ⟨rfl, List.mem_cons_self, hagain _ _, nofun⟩
  | ack input taken =>
    constructor
    · rfl
    · exact List.mem_cons_self
    · exact hagain _ _
    · intro other hother
      rw [← Option.some.inj hother]
      exact ⟨taken, hack input taken rfl, rfl⟩

/-- The exchange is right for just those OFFERs whose sender's address reads the same in both byte
orders. -/
theorem exchanges_iff (client : DhcpClient) (events : DhcpEvents) :
    Exchanges (client.dhcpRequest events) ↔
      (events.discovers = true → events.sends = true →
        ∀ offer, events.firstOffer client.xid = some offer →
          offer.srcIp ≠ 0 ∧ htonl offer.srcIp = offer.srcIp) := by
  have htakes : Takes client.xid _ _ := awaitOffer_takes (events.offers.take 8) {}
  by_cases hdiscovers : events.discovers = true
  · cases hfound : awaitOffer client.xid (events.offers.take 8) {} with
    | mk fields taken =>
      rw [hfound] at htakes
      cases taken with
      | none =>
        have hrun : client.dhcpRequest events = {} := by
          rw [DhcpClient.dhcpRequest, hfound, if_neg (by rw [hdiscovers]; decide)]
        apply iff_of_true
        · rw [hrun]
          exact ⟨nofun, nofun⟩
        · intro _ _ offer hoffer
          exact nomatch htakes.first.trans hoffer
      | some offer =>
        obtain ⟨before, hrecv, hyiaddr⟩ := htakes.fields offer rfl
        have hrequests := requests_iff client hrecv hyiaddr
        have hfirst : events.firstOffer client.xid = some offer := htakes.first.symm
        by_cases hsends : events.sends = true
        · have hrun := requestRun_dhcpRequest hdiscovers hfound hsends
          constructor
          · intro hexchanges _ _ other hother
            rw [hfirst] at hother
            rw [← Option.some.inj hother]
            exact hrequests.mp (hexchanges.requests offer hrun.offer _ hrun.sent)
          · intro hsrc
            constructor
            · intro other hother request hrequest
              rw [hrun.offer] at hother
              rw [hrun.same request hrequest, ← Option.some.inj hother]
              exact hrequests.mpr (hsrc hdiscovers hsends offer hfirst)
            · intro ack hack
              obtain ⟨result, hresult, hconfig⟩ := hrun.ack ack hack
              exact ⟨_, hconfig, configures_of_ack hresult⟩
        · have hrun : client.dhcpRequest events = { offer := some offer } := by
            rw [DhcpClient.dhcpRequest, hfound, if_neg (by rw [hdiscovers]; decide)]
            exact if_pos (Bool.eq_false_of_not_eq_true hsends)
          apply iff_of_true
          · rw [hrun]
            exact ⟨fun _ _ _ hrequest => absurd hrequest List.not_mem_nil, nofun⟩
          · exact fun _ h => absurd h hsends
  · have hrun : client.dhcpRequest events = {} := by
      rw [DhcpClient.dhcpRequest, if_pos (Bool.eq_false_of_not_eq_true hdiscovers)]
    apply iff_of_true
    · rw [hrun]
      exact ⟨nofun, nofun⟩
    · exact fun h => absurd h hdiscovers

/-! ## A server whose address is asked for backwards -/

/-- A client whose hardware address is zero. -/
def plainClient : DhcpClient := ⟨fun _ => 0, 0⟩

def plainOffer : DhcpInput where
  srcIp := 0x0202000A
  srcPort := 67
  data := List.replicate 4 0 ++ [0x12, 0x34, 0x56, 0x78] ++ List.replicate 8 0 ++ [10, 0, 2, 15] ++
    List.replicate 216 0 ++ [0x63, 0x82, 0x53, 0x63] ++ [53, 1, 2, 255] ++ List.replicate 308 0
  behind := 0

def plainEvents : DhcpEvents := ⟨true, [[some plainOffer]], true, []⟩

/-- The fields that the OFFER leads to. -/
def plainFields : DhcpFields where
  msgtype := 2
  yiaddr := 0x0A00020F
  server := 0x0202000A

theorem dhcpRecv_plainOffer : dhcpRecv plainClient.xid plainOffer {} = some plainFields := by
  have hnext : 0 + 2 + (plainOffer.options.getD (0 + 1) 0).toNat = 3 := by decide +kernel
  rw [dhcpRecv, if_neg (by decide +kernel), if_neg (by decide +kernel),
    if_neg (by decide +kernel), if_neg (by decide +kernel)]
  calc
    some (dhcpOptions plainOffer.options 0 0 { plainFields with msgtype := 0 })
      = some (dhcpOptions plainOffer.options 0 3 plainFields) := by
        rw [dhcpOptions, if_neg (by decide), if_neg (by decide +kernel),
          if_neg (by decide +kernel), if_neg (by decide +kernel), hnext]
        rfl
    _ = some plainFields := by
        rw [dhcpOptions, if_neg (by decide), if_pos (by decide +kernel)]

/-- The REQUEST names the server 2.2.0.10. -/
theorem not_exchanges_plainOffer : ¬ Exchanges (plainClient.dhcpRequest plainEvents) := by
  intro hexchanges
  have hoffer : awaitOffer plainClient.xid (plainEvents.offers.take 8) {} =
      (plainFields, some plainOffer) := by
    change awaitOffer plainClient.xid [[some plainOffer]] {} = _
    rw [awaitOffer, tryOffer, dhcpRecv_plainOffer]
    rfl
  have hrun := requestRun_dhcpRequest rfl hoffer rfl
  have hsame := (requests_iff plainClient dhcpRecv_plainOffer (by decide)).mp
    (hexchanges.requests plainOffer hrun.offer _ hrun.sent)
  exact absurd hsame.2 (by decide)

end EigenOS.Net
