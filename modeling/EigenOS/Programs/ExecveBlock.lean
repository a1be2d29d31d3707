import EigenOS.Programs.ExecveErrors
import EigenOS.Programs.StackPages

/-!
# The arguments of a new program

The number of arguments that `sys_execve` stores is one more than its caller has handed over, and
no store after it reaches it.
-/

namespace EigenOS.Programs

open EigenOS.InitialStack (HoldsWords IsText IsVector Passes Points Text textAt wordAt)
open EigenOS.Paging

/-! ## What a caller hands over -/

/-- The strings of a vector; there are none where there is no vector. -/
def CallerVector (mem : InitialStack.Memory) (vec : Word) (texts : List Text) : Prop :=
  (vec = 0#64 ∧ texts = []) ∨ (vec ≠ 0#64 ∧ IsVector mem vec texts)

/-- How many bytes strings take. -/
def textBytes (texts : List Text) : ℕ := (texts.map fun text => text.length + 1).sum

/-- How many bytes the call reserves for the strings. -/
def stringBytes (name : Text) (argv : Word) (args env : List Text) : ℕ :=
  name.length + 1 + (if argv = 0#64 then name.length + 1 else textBytes args) + textBytes env

/-- A path, arguments and an environment within the limits of the call. -/
structure Request (s : ExecState) (path argv envp : Word) (name : Text)
    (args env : List Text) : Prop where
  path : IsText s.view path name
  pathFits : name.length ≤ 255
  argStrings : CallerVector s.view argv args
  envStrings : CallerVector s.view envp env
  argsFit : args.length ≤ maxStrings
  envFits : env.length ≤ maxStrings
  blockFits : stringBytes name argv args env + (args.length + env.length + 5) * 8 + 64 ≤
    userStackSize

/-- A program starts with these strings in its stack, and with the stack pointer that its first
instructions expect. -/
def Delivered (s : ExecState) (args env : List Text) : Prop :=
  Passes (userView s.memory s.cr3) ⟨userStackVaddr.toNat, userStackSize⟩ s.frame.rsp.toBitVec
      args env ∧
    s.frame.rsp.toNat % 16 = 8

/-! ## Counting -/

section Counting

variable {mem : InitialStack.Memory} {vec slen absent : Word} {pointers front : List Word}
  {texts args env : List Text} {rounds : ℕ}

theorem textBytes_cons (text : Text) (texts : List Text) :
    textBytes (text :: texts) = text.length + 1 + textBytes texts := by
  rw [textBytes, List.map_cons, List.sum_cons]
  rfl

variable (mem vec slen pointers front texts rounds) in
theorem countStrings_of_points (hwords : HoldsWords mem vec (front ++ pointers ++ [0#64]))
    (h : Points mem pointers texts) (hrounds : pointers.length ≤ rounds)
    (hbytes : textBytes texts < 2 ^ 64) :
    countStrings mem vec rounds front.length slen =
      some (front.length + texts.length, slen + BitVec.ofNat 64 (textBytes texts)) := by
  induction texts generalizing rounds front pointers slen with
  | nil =>
      cases List.forall₂_nil_right_iff.mp h.texts
      have hend := hwords front.length (by
        rw [List.append_nil, List.length_append, List.length_singleton]
        omega)
      rw [List.append_nil, List.getElem?_concat_length] at hend
      have hzero : slen + BitVec.ofNat 64 (textBytes []) = slen := BitVec.add_zero slen
      rw [hzero]
      cases rounds with
      | zero => rfl
      | succ rounds =>
          rw [countStrings, slotAddr, hend, Option.bind_some, if_pos rfl]
          rfl
  | cons text texts ih =>
      obtain ⟨pointer, rest, htext, hrest, rfl⟩ := List.forall₂_cons_right_iff.mp h.texts
      rw [textBytes_cons] at hbytes
      cases rounds with
      | zero => exact absurd hrounds (Nat.not_succ_le_zero _)
      | succ rounds =>
          have hword := hwords front.length (by
            rw [List.append_assoc, List.length_append, List.cons_append, List.length_cons]
            omega)
          rw [List.append_assoc, List.cons_append, List.getElem?_append_right (Nat.le_refl _),
            Nat.sub_self, List.getElem?_cons_zero] at hword
          obtain ⟨hnull, hnonNull⟩ := List.ne_and_not_mem_of_not_mem_cons h.nonNull
          have htextAt : textAt mem pointer = some text :=
            InitialStack.textAt_eq_some_iff.mpr ⟨by omega, htext⟩
          have hnext : HoldsWords mem vec (front ++ [pointer] ++ rest ++ [0#64]) := by
            rwa [List.append_assoc front, List.singleton_append]
          rw [countStrings, slotAddr, hword, Option.bind_some, if_neg (Ne.symm hnull), htextAt,
            Option.bind_some]
          have hcount := @ih (slen + BitVec.ofNat 64 (text.length + 1)) rest (front ++ [pointer])
            rounds hnext ⟨hnonNull, hrest⟩ (Nat.le_of_succ_le_succ hrounds) (by omega)
          rw [List.length_append, List.length_singleton] at hcount
          rw [hcount, textBytes_cons, List.length_cons, BitVec.add_assoc, ← BitVec.ofNat_add]
          congr 2
          omega

variable (mem vec slen absent texts) in
theorem countVector_of_caller (h : CallerVector mem vec texts)
    (hlength : texts.length ≤ maxStrings) (hbytes : textBytes texts < 2 ^ 64) :
    countVector mem vec slen absent = some (texts.length,
      slen + if vec = 0#64 then absent else BitVec.ofNat 64 (textBytes texts)) := by
  rw [countVector]
  rcases h with ⟨hnull, rfl⟩ | ⟨hvec, pointers, hwords, hpoints⟩
  · rw [if_pos hnull, if_pos hnull]
    rfl
  · rw [if_neg hvec, if_neg hvec]
    have hcount := countStrings_of_points mem vec slen pointers [] texts maxStrings hwords hpoints
      (hpoints.texts.length_eq ▸ hlength) hbytes
    rwa [List.length_nil, Nat.zero_add] at hcount

end Counting

/-! ## Storing -/

section Storing

variable {root : PhysPage} {m m' : PageTables} {vec arr sp sp' argv envp slen value : Word}
  {count i index pl nargs nenv low top bound k : ℕ}

theorem toNat_slotAddr (h : arr.toNat + 8 * k < 2 ^ 64) :
    (slotAddr arr k).toNat = arr.toNat + 8 * k := toNat_add_ofNat _ _ h

theorem slotAddr_zero (arr : Word) : slotAddr arr 0 = arr := BitVec.add_zero arr

/-- What is below some words of the array, and what is between the array and the strings. -/
def Spared (low top bound n : ℕ) : Prop := n < low ∨ (top ≤ n ∧ n < bound)

variable (top bound) in
theorem storeSlot_keeps (h : UserSpace m root) (hlow : low ≤ arr.toNat + 8 * k)
    (htop : arr.toNat + 8 * k + 8 ≤ top) (hle : top ≤ 2 ^ 47)
    (hstore : storeWord root (slotAddr arr k) value m = some m') :
    Keeps root (Spared low top bound) m m' := by
  have hslot : (slotAddr arr k).toNat = arr.toNat + 8 * k := toNat_slotAddr (by omega)
  refine (storeWord_keeps h (by omega) hstore).mono fun n hn => ?_
  rw [Spared] at hn
  omega

variable (root m m' vec arr sp sp' count i index low top) in
theorem copyVector_keeps (h : UserSpace m root) (hsp : bound ≤ sp.toNat ∧ low ≤ sp.toNat)
    (hle : sp.toNat ≤ 2 ^ 47 ∧ top ≤ 2 ^ 47) (hlow : low ≤ arr.toNat + 8 * index)
    (htop : arr.toNat + 8 * (index + count) ≤ top)
    (hcopy : copyVector root vec arr count i index sp m = some (sp', m')) :
    (bound ≤ sp'.toNat ∧ low ≤ sp'.toNat) ∧ sp'.toNat ≤ 2 ^ 47 ∧
      Keeps root (Spared low top bound) m m' := by
  induction count generalizing i index sp m with
  | zero =>
      cases hcopy
      exact ⟨hsp, hle.1, Keeps.refl root _ _⟩
  | succ count ih =>
      obtain ⟨string, _, hcopy⟩ := Option.bind_eq_some_iff.mp hcopy
      obtain ⟨text, _, hcopy⟩ := Option.bind_eq_some_iff.mp hcopy
      obtain ⟨copied, hbytes, hcopy⟩ := Option.bind_eq_some_iff.mp hcopy
      obtain ⟨stored, hstore, hrest⟩ := Option.bind_eq_some_iff.mp hcopy
      obtain ⟨hinside, hcopied⟩ := copyBytes_keeps h hle.1 hbytes
      have hfirst : Keeps root (Spared low top bound) m copied := by
        refine hcopied.mono fun n hn => ?_
        rw [Spared] at hn
        omega
      have hcopiedSpace := hfirst.tables.userSpace h
      have hsecond : Keeps root (Spared low top bound) copied stored :=
        storeSlot_keeps _ _ hcopiedSpace hlow (by omega) hle.2 hstore
      have hnext : (sp + BitVec.ofNat 64 (text.length + 1)).toNat = sp.toNat + (text.length + 1) :=
        toNat_add_ofNat _ _ (by omega)
      obtain ⟨hsp', hle', hthird⟩ := ih _ _ _ _ (hsecond.tables.userSpace hcopiedSpace) (by omega)
        (by omega) (by omega) (by omega) hrest
      exact ⟨hsp', hle', (hfirst.trans hsecond).trans hthird⟩

variable (slen nargs nenv) in
theorem toNat_execArr (hfits : slen.toNat + (nargs + nenv + 5) * 8 + 64 ≤ userStackSize) :
    (execArr nargs nenv slen).toNat =
      (userStackEnd.toNat - (slen.toNat + (nargs + nenv + 5) * 8 + 64)) / 16 * 16 + 8 := by
  have hend : userStackEnd.toNat = 1879572480 := rfl
  have hsize : userStackSize = 524288 := rfl
  have htotal : (slen + BitVec.ofNat 64 ((nargs + nenv + 5) * 8) + 64#64).toNat =
      slen.toNat + (nargs + nenv + 5) * 8 + 64 := by
    have hfirst : (slen + BitVec.ofNat 64 ((nargs + nenv + 5) * 8)).toNat =
        slen.toNat + (nargs + nenv + 5) * 8 := toNat_add_ofNat _ _ (by omega)
    rw [← hfirst]
    exact toNat_add_ofNat _ 64 (by omega)
  rw [execArr, ← htotal]
  generalize slen + BitVec.ofNat 64 ((nargs + nenv + 5) * 8) + 64#64 = total at htotal ⊢
  have hsub : (userStackEnd - total).toNat = userStackEnd.toNat - total.toNat := by
    apply BitVec.toNat_sub_of_le
    rw [BitVec.le_def]
    omega
  have hsum := MachineInt.toNat_and_add_and_not (userStackEnd - total) 15#64
  have hlow : ((userStackEnd - total) &&& 15#64).toNat =
      (userStackEnd.toNat - total.toNat) % 16 := by
    rw [BitVec.toNat_and, hsub]
    exact Nat.and_two_pow_sub_one_eq_mod _ 4
  have harr := toNat_add_ofNat ((userStackEnd - total) &&& ~~~15#64) 8 (by omega)
  omega

theorem execArr_le (hfits : slen.toNat + (nargs + nenv + 5) * 8 + 64 ≤ userStackSize) :
    (execArr nargs nenv slen).toNat + slen.toNat + (nargs + nenv + 5) * 8 + 56 ≤
      userStackEnd.toNat := by
  have hend : userStackEnd.toNat = 1879572480 := rfl
  have hsize : userStackSize = 524288 := rfl
  rw [toNat_execArr _ _ _ hfits]
  omega

/-- The first two words of the array, and memory between the array and the first string that is
copied, are not stored to again. -/
theorem execBlock_spec (h : UserSpace m root)
    (hfits : slen.toNat + (nargs + nenv + 5) * 8 + 64 ≤ userStackSize) (hpath : pl < slen.toNat)
    (hblock : execBlock root pl argv envp nargs nenv slen m = some m') :
    wordAt (userView m' root) (execArr nargs nenv slen) = some (BitVec.ofNat 64 (nargs + 1)) ∧
      wordAt (userView m' root) (slotAddr (execArr nargs nenv slen) 1) =
        some (userStackEnd - slen) ∧
      ∀ k ≤ pl, userView m' root (userStackEnd - slen + BitVec.ofNat 64 k) =
        userView m root (userStackEnd - slen + BitVec.ofNat 64 k) := by
  have harr := execArr_le hfits
  have hend : userStackEnd.toNat = 1879572480 := rfl
  have hsp : (userStackEnd - slen).toNat = userStackEnd.toNat - slen.toNat := by
    apply BitVec.toNat_sub_of_le
    rw [BitVec.le_def]
    omega
  have hstart : (userStackEnd - slen + BitVec.ofNat 64 (pl + 1)).toNat =
      (userStackEnd - slen).toNat + (pl + 1) := toNat_add_ofNat _ _ (by omega)
  obtain ⟨first, hcount, hblock⟩ := Option.bind_eq_some_iff.mp hblock
  obtain ⟨second, hpointer, hblock⟩ := Option.bind_eq_some_iff.mp hblock
  obtain ⟨⟨argEnd, args⟩, hargs, hblock⟩ := Option.bind_eq_some_iff.mp hblock
  obtain ⟨fourth, hargNull, hblock⟩ := Option.bind_eq_some_iff.mp hblock
  obtain ⟨fifth, haux, hblock⟩ := Option.bind_eq_some_iff.mp hblock
  obtain ⟨sixth, hauxEnd, hblock⟩ := Option.bind_eq_some_iff.mp hblock
  obtain ⟨⟨envEnd, env⟩, henv, henvNull⟩ := Option.bind_eq_some_iff.mp hblock
  generalize execArr nargs nenv slen = arr at *
  have hkept : ∀ low (mid mid' : PageTables) k word, UserSpace mid root →
      low ≤ arr.toNat + 8 * k → k ≤ nargs + nenv + 5 →
      storeWord root (slotAddr arr k) word mid = some mid' →
      Keeps root (Spared low (userStackEnd - slen).toNat
        (userStackEnd - slen + BitVec.ofNat 64 (pl + 1)).toNat) mid mid' ∧ UserSpace mid' root := by
    intro low mid mid' k word hspace hlow hk hstore
    have hkeeps := storeSlot_keeps (userStackEnd - slen).toNat
      (userStackEnd - slen + BitVec.ofNat 64 (pl + 1)).toNat hspace hlow (by omega) (by omega)
      hstore
    exact ⟨hkeeps, hkeeps.tables.userSpace hspace⟩
  obtain ⟨hfirst, hfirstSpace⟩ := hkept arr.toNat m first 0 _ h (by omega) (by omega) hcount
  obtain ⟨hsecond, hsecondSpace⟩ :=
    hkept (arr.toNat + 8) first second 1 _ hfirstSpace (by omega) (by omega) hpointer
  obtain ⟨hargEnd, hargLe, hthird⟩ := copyVector_keeps root second args argv arr _ argEnd nargs 0 2
    (arr.toNat + 16) (userStackEnd - slen).toNat hsecondSpace ⟨le_refl _, by omega⟩
    ⟨by omega, by omega⟩ (by omega) (by omega) hargs
  have hthirdSpace := hthird.tables.userSpace hsecondSpace
  obtain ⟨hfourth, hfourthSpace⟩ :=
    hkept (arr.toNat + 16) args fourth _ _ hthirdSpace (by omega) (by omega) hargNull
  obtain ⟨hfifth, hfifthSpace⟩ :=
    hkept (arr.toNat + 16) fourth fifth _ _ hfourthSpace (by omega) (by omega) haux
  obtain ⟨hsixth, hsixthSpace⟩ :=
    hkept (arr.toNat + 16) fifth sixth _ _ hfifthSpace (by omega) (by omega) hauxEnd
  obtain ⟨_, _, hseventh⟩ := copyVector_keeps root sixth env envp arr argEnd envEnd nenv 0
    (nargs + 3) (arr.toNat + 16) (userStackEnd - slen).toNat hsixthSpace hargEnd
    ⟨hargLe, by omega⟩ (by omega) (by omega) henv
  obtain ⟨hlast, _⟩ := hkept (arr.toNat + 16) env m' _ _ (hseventh.tables.userSpace hsixthSpace)
    (by omega) (by omega) henvNull
  have hlater := ((hthird.trans hfourth).trans (hfifth.trans hsixth)).trans (hseventh.trans hlast)
  have hzero : slotAddr arr 0 = arr := slotAddr_zero arr
  have hone : (slotAddr arr 1).toNat = arr.toNat + 8 * 1 := toNat_slotAddr (by omega)
  refine ⟨?_, ?_, fun k hk => ?_⟩
  · rw [hlater.wordAt_eq (by omega) fun k hk => Or.inl (by omega),
      hsecond.wordAt_eq (by omega) fun k hk => Or.inl (by omega)]
    rw [hzero] at hcount
    exact wordAt_storeWord h (by omega) hcount
  · rw [hlater.wordAt_eq (by omega) fun k hk => Or.inl (by omega)]
    exact wordAt_storeWord hfirstSpace (by omega) hpointer
  · have haddr : (userStackEnd - slen + BitVec.ofNat 64 k).toNat =
        (userStackEnd - slen).toNat + k := toNat_add_ofNat _ _ (by omega)
    rw [hlater.view _ (Or.inr (by omega)), hsecond.view _ (Or.inr (by omega)),
      hfirst.view _ (Or.inr (by omega))]

end Storing

/-! ## The whole call -/

section Call

variable {s s' : ExecState} {path argv envp slen tls id : Word} {page : Option Word} {name : Text}
  {args env : List Text} {cur : Fin Tasking.maxTasks} {image : Image} {m m' : PageTables}
  {root : PhysPage} {pl nargs nenv : ℕ} {idx : Filesystem.Slot}

theorem countArguments_of_request (h : Request s path argv envp name args env) :
    countArguments s.view name.length argv envp =
      some (args.length, env.length, BitVec.ofNat 64 (stringBytes name argv args env)) := by
  have hsize : userStackSize = 524288 := rfl
  have hfits := h.blockFits
  rw [stringBytes] at hfits
  have henvBytes : textBytes env < 2 ^ 64 := by omega
  have hargBytes : textBytes args < 2 ^ 64 := by
    rcases h.argStrings with ⟨_, rfl⟩ | ⟨hargv, _⟩
    · exact Nat.two_pow_pos 64
    · rw [if_neg hargv] at hfits
      omega
  have hargs := countVector_of_caller s.view argv (BitVec.ofNat 64 (name.length + 1))
    (BitVec.ofNat 64 (name.length + 1)) args h.argStrings h.argsFit hargBytes
  rw [countArguments, hargs, Option.bind_eq_bind, Option.bind_some]
  dsimp only
  rw [countVector_of_caller _ _ _ _ _ h.envStrings h.envFits henvBytes, Option.bind_some]
  have hreserved : (BitVec.ofNat 64 (name.length + 1) + if argv = 0#64 then
      BitVec.ofNat 64 (name.length + 1) else BitVec.ofNat 64 (textBytes args)) +
        (if envp = 0#64 then 0#64 else BitVec.ofNat 64 (textBytes env)) =
      BitVec.ofNat 64 (stringBytes name argv args env) := by
    have henv : (if envp = 0#64 then 0#64 else BitVec.ofNat 64 (textBytes env)) =
        BitVec.ofNat 64 (textBytes env) := by
      rcases h.envStrings with ⟨henvp, rfl⟩ | ⟨henvp, _⟩
      · exact if_pos henvp
      · exact if_neg henvp
    have harg : (if argv = 0#64 then BitVec.ofNat 64 (name.length + 1)
        else BitVec.ofNat 64 (textBytes args)) =
        BitVec.ofNat 64 (if argv = 0#64 then name.length + 1 else textBytes args) :=
      (apply_ite (BitVec.ofNat 64) _ _ _).symm
    rw [henv, harg, ← BitVec.ofNat_add, ← BitVec.ofNat_add, stringBytes]
  rw [hreserved]

theorem Request.reserved (h : Request s path argv envp name args env) :
    (BitVec.ofNat 64 (stringBytes name argv args env)).toNat = stringBytes name argv args env ∧
      name.length < stringBytes name argv args env := by
  have hfits := h.blockFits
  have hsize : userStackSize = 524288 := rfl
  constructor
  · rw [BitVec.toNat_ofNat, Nat.mod_eq_of_lt (by omega)]
  · rw [stringBytes]
    omega

theorem tlsAddr_inside (slot : Fin Tasking.maxTasks) : (tlsAddr slot).toNat + 4096 ≤ 2 ^ 47 := by
  have hslot := slot.isLt
  have hmax : Tasking.maxTasks = 64 := rfl
  have hstart : threadTlsVaddr.toNat = 1610612736 := rfl
  have haddr : (tlsAddr slot).toNat = threadTlsVaddr.toNat + slot.val * 0x1000 :=
    toNat_add_ofNat _ _ (by omega)
  omega

theorem execPages_space (h : UserSpace m root) (htls : tls.toNat + 4096 ≤ 2 ^ 47)
    (hpages : execPages root tls id m = some (page, m')) : UserSpace m' root := by
  have hrange : userStackVaddr.toNat + 4096 * (userStackSize / 4096) ≤ 2 ^ 47 := by decide
  have hstack := h.stackPages hrange
  rw [execPages] at hpages
  cases hstep : stackPages root (userStackSize / 4096) userStackVaddr m with
  | fault =>
      rw [hstep] at hpages
      cases hpages
  | refused mid | done mid =>
      rw [hstep] at hpages hstack
      have hmid : UserSpace mid root := by
        cases hstack
        assumption
      have hafter := hmid.tlsPage id htls
      dsimp only at hpages
      cases htlsPage : tlsPage root tls id mid with
      | fault =>
          rw [htlsPage] at hpages
          cases hpages
      | refused last | done last =>
          rw [htlsPage] at hpages hafter
          cases hpages
          cases hafter
          assumption

theorem startProgram_count (h : UserSpace m s.cr3)
    (hfits : slen.toNat + (nargs + nenv + 5) * 8 + 64 ≤ userStackSize) (hpath : pl < slen.toNat)
    (hstart : startProgram s cur image.eEntry pl argv envp nargs nenv slen m = some s') :
    wordAt (userView s'.memory s'.cr3) s'.frame.rsp.toBitVec =
      some (BitVec.ofNat 64 (nargs + 1)) := by
  obtain ⟨⟨tls, mid⟩, hpages, hstart⟩ := Option.bind_eq_some_iff.mp hstart
  obtain ⟨last, hblock, hstart⟩ := Option.bind_eq_some_iff.mp hstart
  cases hstart
  have hspace := execPages_space h (tlsAddr_inside cur) hpages
  exact (execBlock_spec hspace hfits hpath hblock).1

variable (s s' argv envp cur image pl) in
theorem execImage_started
    (hrun : execImage s cur pl argv envp image = .returned 0 s') :
    ∃ nargs nenv slen root m m', countArguments s.view pl argv envp = some (nargs, nenv, slen) ∧
      vmmNewUserPml4 s.memory s.cr3 = (some root, m) ∧ (elfLoad image root m).2 = .done m' ∧
        startProgram (s.enter root m') cur image.eEntry pl argv envp nargs nenv slen m' =
          some s' := by
  unfold execImage at hrun
  cases hcount : countArguments s.view pl argv envp with
  | none =>
      rw [hcount] at hrun
      cases hrun
  | some counted =>
      obtain ⟨nargs, nenv, slen⟩ := counted
      rw [hcount] at hrun
      dsimp only at hrun
      cases hnew : vmmNewUserPml4 s.memory s.cr3 with
      | mk fresh m =>
          rw [hnew] at hrun
          cases fresh with
          | none => exact absurd (ExecOutcome.returned.inj hrun).1 neg_errors_ne.2.2
          | some root =>
              dsimp only at hrun
              cases helf : (elfLoad image root m).2 with
              | fault =>
                  rw [helf] at hrun
                  cases hrun
              | refused m' =>
                  rw [helf] at hrun
                  exact absurd (ExecOutcome.returned.inj hrun).1 neg_errors_ne.2.1
              | done m' =>
                  rw [helf] at hrun
                  exact ⟨nargs, nenv, slen, root, m, m', rfl, rfl, helf,
                    (started_eq_returned.mp hrun).2⟩

theorem execFile_started (hrun : (execFile s cur pl argv envp idx).2 = .returned 0 s') :
    ∃ elfbuf image, execImage { s with elfbuf := elfbuf } cur pl argv envp image =
      .returned 0 s' := by
  unfold execFile at hrun
  dsimp only at hrun
  split_ifs at hrun with hrefused hover hshort
  · exact absurd (ExecOutcome.returned.inj hrun).1 neg_errors_ne.2.2
  · exact absurd (ExecOutcome.returned.inj hrun).1 neg_errors_ne.2.1
  · exact ⟨_, _, hrun⟩

/-- No program gets the strings that its caller has handed over. -/
theorem not_delivered (h : WellFormed s.memory s.cr3)
    (hrequest : Request s path argv envp name args env) :
    ¬ ∃ s', (sysExecve s path argv envp).2 = .returned 0 s' ∧ Delivered s' args env := by
  rintro ⟨s', hrun, ⟨block, hdelivers, _⟩, _⟩
  by_cases hopens : ∃ cur pl idx, Opens s path cur pl idx
  · obtain ⟨cur, pl, idx, hopens⟩ := hopens
    obtain ⟨_, _, _, text, htext, _, rfl, _⟩ := id hopens
    cases htext.symm.trans (cutText_of_isText hrequest.path hrequest.pathFits)
    rw [sysExecve_of_opens hopens] at hrun
    obtain ⟨elfbuf, image, himage⟩ := execFile_started hrun
    obtain ⟨nargs, nenv, slen, root, m, m', hcount, hnew, hdone, hstart⟩ :=
      execImage_started { s with elfbuf := elfbuf } s' argv envp cur image _ himage
    have hspace := (userSpace_newUserPml4 h hnew).1.elfLoad hdone
    have hcounted : countArguments s.view name.length argv envp = some (nargs, nenv, slen) :=
      hcount
    cases hcounted.symm.trans (countArguments_of_request hrequest)
    have hfits := hrequest.blockFits
    have hargs := hrequest.argsFit
    have hmax : maxStrings = 63 := rfl
    obtain ⟨hbytes, hpath⟩ := hrequest.reserved
    have hfound := startProgram_count hspace (by omega) (by omega) hstart
    have hwords := congrArg BitVec.toNat (Option.some.inj (hfound.symm.trans hdelivers.count))
    rw [BitVec.toNat_ofNat, BitVec.toNat_ofNat] at hwords
    omega
  · have hnone : ∀ cur pl idx, ¬ Opens s path cur pl idx :=
      fun cur pl idx h => hopens ⟨cur, pl, idx, h⟩
    rcases sysExecve_of_not_opens s path argv envp hnone with hfault | ⟨error, herror, hreturned⟩
    · rw [hfault] at hrun
      cases hrun
    · rw [hreturned] at hrun
      exact herror (ExecOutcome.returned.inj hrun).1

end Call

/-! ## A call without arguments -/

section NoArguments

variable {s : ExecState} {cur : Fin Tasking.maxTasks} {image : Image} {m m' : PageTables}
  {root : PhysPage} {arr slen value id path argv envp : Word} {pl k size : ℕ}
  {idx : Filesystem.Slot}

/-- Some words from an address on are mapped. -/
def WordsMapped (m : PageTables) (root : PhysPage) (arr : Word) (size : ℕ) : Prop :=
  ∀ k < 8 * size, (userView m root (arr + BitVec.ofNat 64 k)).isSome = true

variable (m root value k size) in
theorem storeSlot_of_mapped (h : UserSpace m root) (hmapped : WordsMapped m root arr size)
    (hinside : arr.toNat + 8 * size ≤ 2 ^ 47) (hk : k < size) :
    ∃ m', storeWord root (slotAddr arr k) value m = some m' ∧ UserSpace m' root ∧
      WordsMapped m' root arr size := by
  have hslot : (slotAddr arr k).toNat = arr.toNat + 8 * k := toNat_slotAddr (by omega)
  obtain ⟨m', hstore⟩ := storeBytes_of_mapped m root (slotAddr arr k)
    (InitialStack.byteOfWord value) 8 h (by omega) fun j hj => by
      rw [slotAddr, BitVec.add_assoc, ← BitVec.ofNat_add]
      exact hmapped _ (by omega)
  have hkeeps := storeWord_keeps h (by omega) hstore
  refine ⟨m', hstore, hkeeps.tables.userSpace h, fun j hj => ?_⟩
  have huser : User (arr + BitVec.ofNat 64 j) := user_add (by omega)
  have hbefore := hmapped j hj
  rw [userView_of_user huser, loadByte_isSome_iff] at hbefore ⊢
  rwa [hkeeps.tables.frameOf_eq]

variable (m root slen argv envp pl) in
theorem execBlock_of_mapped (h : UserSpace m root)
    (hmapped : WordsMapped m root (execArr 0 0 slen) 6)
    (hinside : (execArr 0 0 slen).toNat + 8 * 6 ≤ 2 ^ 47) :
    ∃ m', execBlock root pl argv envp 0 0 slen m = some m' := by
  obtain ⟨first, hfirst, h, hmapped⟩ := storeSlot_of_mapped m root (BitVec.ofNat 64 (0 + 1)) 0 6
    h hmapped hinside (by decide)
  obtain ⟨second, hsecond, h, hmapped⟩ := storeSlot_of_mapped first root (userStackEnd - slen) 1
    6 h hmapped hinside (by decide)
  obtain ⟨third, hthird, h, hmapped⟩ := storeSlot_of_mapped second root 0#64 2 6 h hmapped
    hinside (by decide)
  obtain ⟨fourth, hfourth, h, hmapped⟩ := storeSlot_of_mapped third root 0#64 4 6 h hmapped
    hinside (by decide)
  obtain ⟨fifth, hfifth, h, hmapped⟩ := storeSlot_of_mapped fourth root 0#64 5 6 h hmapped
    hinside (by decide)
  obtain ⟨sixth, hsixth, _⟩ := storeSlot_of_mapped fifth root 0#64 3 6 h hmapped hinside
    (by decide)
  refine ⟨sixth, ?_⟩
  rw [execBlock]
  dsimp only [Option.bind_eq_bind]
  rw [hfirst, Option.bind_some, hsecond, Option.bind_some, copyVector, Option.bind_some]
  dsimp only
  rw [hthird, Option.bind_some, hfourth, Option.bind_some, hfifth, Option.bind_some, copyVector,
    Option.bind_some]
  exact hsixth

variable (cur m root id) in
theorem execPages_of_frames (h : UserSpace m root)
    (hframes : 4 + 4 * (userStackSize / 4096) ≤ m.supply.length) :
    ∃ m', execPages root (tlsAddr cur) id m = some (some (tlsAddr cur), m') ∧ UserSpace m' root ∧
      ∀ addr : Word, userStackVaddr.toNat ≤ addr.toNat → addr.toNat < userStackEnd.toNat →
        userView m' root addr = some 0#8 := by
  have hslot := cur.isLt
  have hmax : Tasking.maxTasks = 64 := rfl
  have htlsStart : threadTlsVaddr.toNat = 1610612736 := rfl
  have hstackStart : userStackVaddr.toNat = 1879048192 := rfl
  have hsize : 4096 * (userStackSize / 4096) = userStackSize := rfl
  have hbytes : userStackSize = 524288 := rfl
  have hend : userStackEnd.toNat = 1879572480 := rfl
  have htls : (tlsAddr cur).toNat = threadTlsVaddr.toNat + cur.val * 0x1000 :=
    toNat_add_ofNat _ _ (by omega)
  obtain ⟨mid, hstack, hspace, hleft, hzeros, _⟩ := stackPages_of_frames m root userStackVaddr
    (userStackSize / 4096) 4 h (by decide) (by decide) hframes
  obtain ⟨m', hpage, hspace', hothers⟩ := tlsPage_of_frames mid root (tlsAddr cur) id hspace
    (by omega) (by omega) hleft
  refine ⟨m', ?_, hspace', fun addr hlow hhigh => ?_⟩
  · rw [execPages, hstack]
    dsimp only
    rw [hpage]
  · have hsplit : addr = userStackVaddr + BitVec.ofNat 64 (addr.toNat - userStackVaddr.toNat) := by
      apply BitVec.eq_of_toNat_eq
      rw [toNat_add_ofNat _ _ (by omega)]
      omega
    rw [hothers]
    · rw [hsplit]
      exact hzeros _ (by omega)
    · rw [ne_eq, pageOf_eq_iff]
      omega

variable (image argv envp pl) in
/-- The path is never copied: what the program finds for its first argument is empty. -/
theorem startProgram_argument (h : UserSpace m s.cr3)
    (hframes : 4 + 4 * (userStackSize / 4096) ≤ m.supply.length)
    (hfits : slen.toNat + (nargs + nenv + 5) * 8 + 64 ≤ userStackSize) (hpath : pl < slen.toNat)
    (hstart : startProgram s cur image.eEntry pl argv envp nargs nenv slen m = some s') :
    ∃ pointer,
      wordAt (userView s'.memory s'.cr3) (slotAddr s'.frame.rsp.toBitVec 1) = some pointer ∧
        IsText (userView s'.memory s'.cr3) pointer [] := by
  obtain ⟨mid, hpages, hspace, hzeros⟩ := execPages_of_frames cur m s.cr3
    (BitVec.ofNat 64 (s.sys.kernel.tasks cur).id) h hframes
  rw [startProgram, hpages, Option.bind_eq_bind, Option.bind_some] at hstart
  obtain ⟨last, hblock, hstart⟩ := Option.bind_eq_some_iff.mp hstart
  cases hstart
  obtain ⟨_, hpointer, hkept⟩ := execBlock_spec hspace hfits hpath hblock
  have hbytes : userStackSize = 524288 := rfl
  have hstackStart : userStackVaddr.toNat = 1879048192 := rfl
  have hend : userStackEnd.toNat = 1879572480 := rfl
  have hsp : (userStackEnd - slen).toNat = userStackEnd.toNat - slen.toNat := by
    apply BitVec.toNat_sub_of_le
    rw [BitVec.le_def]
    omega
  have hfirst := hkept 0 (Nat.zero_le _)
  rw [BitVec.add_zero] at hfirst
  exact ⟨userStackEnd - slen, hpointer,
    InitialStack.isText_nil.mpr (hfirst.trans (hzeros _ (by omega) (by omega)))⟩

variable (s cur image m slen argv envp pl) in
theorem startProgram_of_frames (h : UserSpace m s.cr3)
    (hframes : 4 + 4 * (userStackSize / 4096) ≤ m.supply.length)
    (hslen : slen.toNat + 120 ≤ userStackSize) (hpath : pl < slen.toNat) :
    ∃ s', startProgram s cur image.eEntry pl argv envp 0 0 slen m = some s' ∧
      wordAt (userView s'.memory s'.cr3) s'.frame.rsp.toBitVec = some 1#64 := by
  have hfits : slen.toNat + (0 + 0 + 5) * 8 + 64 ≤ userStackSize := by omega
  have harr := toNat_execArr slen 0 0 hfits
  have hbytes : userStackSize = 524288 := rfl
  have hstackStart : userStackVaddr.toNat = 1879048192 := rfl
  have hend : userStackEnd.toNat = 1879572480 := rfl
  obtain ⟨mid, hpages, hspace, hzeros⟩ := execPages_of_frames cur m s.cr3
    (BitVec.ofNat 64 (s.sys.kernel.tasks cur).id) h hframes
  have hmapped : WordsMapped mid s.cr3 (execArr 0 0 slen) 6 := by
    intro k hk
    have haddr : (execArr 0 0 slen + BitVec.ofNat 64 k).toNat = (execArr 0 0 slen).toNat + k :=
      toNat_add_ofNat _ _ (by omega)
    rw [hzeros _ (by omega) (by omega)]
    rfl
  obtain ⟨last, hblock⟩ := execBlock_of_mapped mid s.cr3 slen argv envp pl hspace hmapped (by omega)
  refine ⟨s.started cur (startFrame image.eEntry (execArr 0 0 slen)) (some (tlsAddr cur)) last, ?_,
    (execBlock_spec hspace hfits hpath hblock).1⟩
  rw [startProgram, hpages, Option.bind_eq_bind, Option.bind_some]
  dsimp only
  rw [hblock]
  rfl

variable (s cur image pl) in
theorem execImage_of_frames (h : WellFormed s.memory s.cr3) (hload : image.Loadable)
    (hframes : 2 ^ 29 + 517 ≤ s.memory.supply.length) (hpl : pl ≤ 255) :
    ∃ s', execImage s cur pl 0#64 0#64 image = .returned 0 s' ∧
      wordAt (userView s'.memory s'.cr3) s'.frame.rsp.toBitVec = some 1#64 := by
  obtain ⟨root, m, hnew⟩ := exists_newUserPml4 s.memory s.cr3 (by omega)
  have hspace := (userSpace_newUserPml4 h hnew).1
  have hsupply : s.memory.supply.length = m.supply.length + 1 := by
    obtain ⟨rest, hcons, rfl⟩ := vmmNewUserPml4_eq_some hnew
    rw [hcons, List.length_cons]
  obtain ⟨mid, hdone, hleft⟩ := elfLoad_of_frames image root m 516 hspace hload (by omega)
  have hlen : (BitVec.ofNat 64 (pl + 1) + BitVec.ofNat 64 (pl + 1) + 0#64).toNat =
      2 * (pl + 1) := by
    rw [BitVec.add_zero, ← BitVec.ofNat_add, BitVec.toNat_ofNat, Nat.mod_eq_of_lt (by omega)]
    omega
  have hsize : userStackSize = 524288 := rfl
  obtain ⟨s', hstart, hfound⟩ := startProgram_of_frames (s.enter root mid) cur image mid
    (BitVec.ofNat 64 (pl + 1) + BitVec.ofNat 64 (pl + 1) + 0#64) 0#64 0#64 pl
    (hspace.elfLoad hdone) hleft (by omega) (by omega)
  refine ⟨s', ?_, hfound⟩
  have hcount : countArguments s.view pl 0#64 0#64 = some (0, 0,
      BitVec.ofNat 64 (pl + 1) + BitVec.ofNat 64 (pl + 1) + 0#64) := rfl
  rw [execImage, hcount]
  dsimp only
  rw [hnew]
  dsimp only
  rw [hdone]
  dsimp only
  rw [hstart]
  rfl

theorem sysExecve_of_frames (h : WellFormed s.memory s.cr3) (hopens : Opens s path cur pl idx)
    (hreadable : Readable s idx) (hload : (readImage s idx).Loadable)
    (hframes : 2 ^ 29 + 517 ≤ s.memory.supply.length) (hpl : pl ≤ 255) :
    ∃ s', (sysExecve s path 0#64 0#64).2 = .returned 0 s' ∧
      wordAt (userView s'.memory s'.cr3) s'.frame.rsp.toBitVec = some 1#64 := by
  obtain ⟨s', hrun, hfound⟩ := execImage_of_frames
    { s with elfbuf := stagedFile s (fileBytes s idx) } cur (readImage s idx) pl h hload hframes hpl
  refine ⟨s', ?_, hfound⟩
  rw [sysExecve_of_opens hopens, execFile_of_readable hreadable]
  exact hrun

/-- Nor does a program that is started without arguments get its path for one. -/
theorem not_delivered_path {env : List Text} {name : Text} (h : WellFormed s.memory s.cr3)
    (hrequest : Request s path 0#64 envp name [] env) (hopens : Opens s path cur pl idx)
    (hreadable : Readable s idx) (hload : (readImage s idx).Loadable)
    (hframes : 2 ^ 29 + 517 ≤ s.memory.supply.length) :
    ¬ ∃ s', (sysExecve s path 0#64 envp).2 = .returned 0 s' ∧ Delivered s' [name] env := by
  rintro ⟨s', hrun, ⟨block, hdelivers, _⟩, _⟩
  obtain ⟨_, _, _, text, htext, hne, rfl, _⟩ := id hopens
  cases htext.symm.trans (cutText_of_isText hrequest.path hrequest.pathFits)
  rw [sysExecve_of_opens hopens, execFile_of_readable hreadable] at hrun
  obtain ⟨nargs, nenv, slen, root, m, last, hcount, hnew, hdone, hstart⟩ :=
    execImage_started { s with elfbuf := stagedFile s (fileBytes s idx) } s' 0#64 envp cur
      (readImage s idx) _ hrun
  have hcounted : countArguments s.view name.length 0#64 envp = some (nargs, nenv, slen) := hcount
  cases hcounted.symm.trans (countArguments_of_request hrequest)
  have hspace := (userSpace_newUserPml4 h hnew).1
  have hsupply : s.memory.supply.length = m.supply.length + 1 := by
    obtain ⟨rest, hcons, rfl⟩ := vmmNewUserPml4_eq_some hnew
    exact congrArg List.length hcons
  obtain ⟨mid, hmid, hleft⟩ := elfLoad_of_frames (readImage s idx) root m 516 hspace hload
    (by omega)
  cases hdone.symm.trans hmid
  obtain ⟨hbytes, hpath⟩ := hrequest.reserved
  have hfits := hrequest.blockFits
  obtain ⟨pointer, hpointer, hempty⟩ := startProgram_argument (readImage s idx) 0#64 envp _
    (hspace.elfLoad hmid) hleft (by omega) (by omega) hstart
  obtain ⟨found, hfound, _, hargument⟩ := hdelivers.argument Nat.one_pos
  cases hpointer.symm.trans hfound
  exact hne (hempty.unique hargument).symm

end NoArguments

/-- A program of one instruction. -/
def executable : List UInt8 :=
  (headerBytes 0x400000 64 1 ++ phdrBytes 1 5 120 0x400000 1 1 ++ [0xC3#8]).map UInt8.ofBitVec

def executableFile : List Filesystem.FileNode :=
  [{ Filesystem.newEntry (Filesystem.bytes "f") .file 0 0 0 with
    data := some executable, size := 121, capacity := 128 }]

/-- Frames for a program and its stack. -/
def manyFrames : ℕ := 2 ^ 29 + 1024

/-- A program in whose memory there is a path, with an executable at the path. -/
def startingCaller : ExecState :=
  { oneByteCaller with
    sys := { oneByteCaller.sys with
      io := { oneByteCaller.sys.io with files := Filesystem.plant executableFile } }
    memory := pageWith (manyFrames + 4) 0x400000#64 pathBytes }

theorem memory_startingCaller :
    startingCaller.memory = pageWith (manyFrames + 4) 0x400000#64 pathBytes := by
  rw [startingCaller]

theorem cr3_startingCaller : startingCaller.cr3 = frame 0 := rfl

theorem manyFrames_le : manyFrames + 4 ≤ 2 ^ 38 := by decide

theorem isText_startingCaller :
    IsText startingCaller.view 0x400000#64 [0x2F#8, 0x66#8] := by
  rw [ExecState.view, memory_startingCaller, cr3_startingCaller]
  exact isText_pathPage _ manyFrames_le

theorem wellFormed_startingCaller : WellFormed startingCaller.memory startingCaller.cr3 := by
  rw [memory_startingCaller, cr3_startingCaller]
  exact (pathPage _ manyFrames_le).1.wellFormed

theorem opens_startingCaller : Opens startingCaller 0x400000#64 ⟨1, Tasking.one_lt_maxTasks⟩ 2
    (Filesystem.plantSlot 0 (by decide)) := by
  refine ⟨rfl, rfl, by decide, _, cutText_of_isText isText_startingCaller (by decide), by decide,
    rfl, ?_⟩
  decide +kernel

theorem request_startingCaller :
    Request startingCaller 0x400000#64 0#64 0#64 [0x2F#8, 0x66#8] [] [] where
  path := isText_startingCaller
  pathFits := by decide
  argStrings := Or.inl ⟨rfl, rfl⟩
  envStrings := Or.inl ⟨rfl, rfl⟩
  argsFit := Nat.zero_le _
  envFits := Nat.zero_le _
  blockFits := by decide

theorem readable_startingCaller :
    Readable startingCaller (Filesystem.plantSlot 0 (by decide)) :=
  ⟨by decide +kernel, by decide +kernel, fun _ => by decide +kernel⟩

theorem loadable_startingCaller :
    (readImage startingCaller (Filesystem.plantSlot 0 (by decide))).Loadable := by decide +kernel

theorem not_delivered_request : ¬ ∃ s',
    (sysExecve startingCaller 0x400000#64 0#64 0#64).2 = .returned 0 s' ∧ Delivered s' [] [] :=
  not_delivered wellFormed_startingCaller request_startingCaller

/-- A program that is started without arguments finds one, and it is not the path. -/
theorem not_delivered_startingCaller : ∃ s',
    (sysExecve startingCaller 0x400000#64 0#64 0#64).2 = .returned 0 s' ∧
      ¬ Delivered s' [] [] ∧ ¬ Delivered s' [[0x2F#8, 0x66#8]] [] := by
  have hframes : 2 ^ 29 + 517 ≤ startingCaller.memory.supply.length := by
    have hleft := memory_startingCaller ▸ (pathPage _ manyFrames_le).2.1
    have hmany : manyFrames = 2 ^ 29 + 1024 := rfl
    omega
  obtain ⟨s', hrun, hcount⟩ := sysExecve_of_frames
    wellFormed_startingCaller opens_startingCaller readable_startingCaller loadable_startingCaller
    hframes (by decide)
  refine ⟨s', hrun, ?_, fun hpath => ?_⟩
  · rintro ⟨⟨block, hdelivers, _⟩, _⟩
    exact absurd (hcount.symm.trans hdelivers.count) (by decide)
  · exact not_delivered_path wellFormed_startingCaller request_startingCaller
      opens_startingCaller readable_startingCaller loadable_startingCaller hframes ⟨s', hrun, hpath⟩

end EigenOS.Programs
