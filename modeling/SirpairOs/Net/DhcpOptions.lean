import SirpairOs.Lib.Reader
import SirpairOs.Net.Receive

/-! How `net_handle_dhcp` reads a message: which bytes it looks at, and what the loop over
the options makes of them. -/
namespace SirpairOs.Net

/-! ### The reads of `net_handle_dhcp`

The function as a program whose only operation is to read the byte at an offset from the start
of the message. -/

/-- The assignments of the loop body for the option at `o`. -/
def readOption (code : UInt8) (olen o : Nat) (opts : DhcpOpts) : ByteReader DhcpOpts :=
  if code = 53 ∧ olen ≥ 1 then do
    let mtype ← readByte o
    pure { opts with mtype := mtype.toNat }
  else if code = 54 ∧ olen ≥ 4 then do
    let server ← readBytes o 4
    pure { opts with server := Bytes.ofList server }
  else if code = 1 ∧ olen ≥ 4 then do
    let mask ← readBytes o 4
    pure { opts with mask := Bytes.ofList mask }
  else if code = 3 ∧ olen ≥ 4 then do
    let gw ← readBytes o 4
    pure { opts with gw := Bytes.ofList gw }
  else if code = 6 ∧ olen ≥ 4 then do
    let dns ← readBytes o 4
    pure { opts with dns := Bytes.ofList dns }
  else if code = 51 ∧ olen ≥ 4 then do
    let lease ← readBytes o 4
    pure { opts with lease := Bytes.beNat lease }
  else pure opts

/-- The loop over the options from `o` up to `fin`. -/
def readOptions (o fin : Nat) (opts : DhcpOpts) : ByteReader DhcpOpts :=
  if _inside : o < fin then do
    let code ← readByte o
    if code = 0 then readOptions (o + 1) fin opts
    else if code = 255 then pure opts
    else if o + 1 ≥ fin then pure opts
    else do
      let olen ← readByte (o + 1)
      if o + 2 + olen.toNat > fin then pure opts
      else do
        let opts ← readOption code olen.toNat (o + 2) opts
        readOptions (o + 2 + olen.toNat) fin opts
  else pure opts
termination_by fin - o

/-- `net_handle_dhcp` up to the end of the loop, on a message of `dlen` bytes; `none` if the
message is dropped before. -/
def readDhcp (dev : NetDev) (dlen : Nat) : ByteReader (Option DhcpOpts) :=
  if dlen < DHCP_OPTS then pure none
  else do
    let op ← readByte 0
    if op ≠ 2 then pure none
    else do
      let htype ← readByte 1
      if htype ≠ 1 then pure none
      else do
        let hlen ← readByte 2
        if hlen ≠ 6 then pure none
        else do
          let xid ← readBytes 4 4
          if Bytes.beNat xid ≠ dev.dhcpXid then pure none
          else do
            let magic ← readBytes 236 4
            if Bytes.beNat magic ≠ DHCP_MAGIC then pure none
            else do
              let chaddr ← readBytes 28 6
              if (Bytes.ofList chaddr : Mac) ≠ Bytes.zero ∧ Bytes.ofList chaddr ≠ dev.mac then
                pure none
              else do
                let opts ← readOptions DHCP_OPTS dlen .start
                pure (some opts)

/-- The items of an option field: padding is skipped, and the field ends at the end marker,
at an item that is cut off, or at its last byte. -/
inductive Items : List UInt8 → List (UInt8 × List UInt8) → Prop where
  | nil : Items [] []
  | pad {rest : List UInt8} {items : List (UInt8 × List UInt8)} (later : Items rest items) :
      Items (0 :: rest) items
  | marker (rest : List UInt8) : Items (255 :: rest) []
  | noLength {code : UInt8} (option : code ≠ 0 ∧ code ≠ 255) : Items [code] []
  | cut {code olen : UInt8} {rest : List UInt8} (option : code ≠ 0 ∧ code ≠ 255)
      (short : rest.length < olen.toNat) : Items (code :: olen :: rest) []
  | item {code olen : UInt8} {value rest : List UInt8} {items : List (UInt8 × List UInt8)}
      (option : code ≠ 0 ∧ code ≠ 255) (length : value.length = olen.toNat)
      (later : Items rest items) : Items (code :: olen :: (value ++ rest)) ((code, value) :: items)

/-- The last value of an option that has the needed length. -/
def lastValue (code : UInt8) (least : Nat) (items : List (UInt8 × List UInt8)) :
    Option (List UInt8) :=
  ((items.filter fun item => item.1 = code ∧ least ≤ item.2.length).getLast?).map Prod.snd

def DhcpOpts.ofItems (items : List (UInt8 × List UInt8)) : DhcpOpts where
  mtype := (lastValue 53 1 items).elim 0 fun value => (value.getD 0 0).toNat
  server := (lastValue 54 4 items).elim Bytes.zero Bytes.ofList
  mask := (lastValue 1 4 items).elim (Bytes.ofList [255, 255, 255, 0]) Bytes.ofList
  gw := (lastValue 3 4 items).elim Bytes.zero Bytes.ofList
  dns := (lastValue 6 4 items).elim Bytes.zero Bytes.ofList
  lease := (lastValue 51 4 items).elim 0 fun value => Bytes.beNat (value.take 4)

theorem readOption_only {code : UInt8} {olen o fin : Nat} {opts : DhcpOpts}
    (inside : o + olen ≤ fin) : (readOption code olen o opts).Only (· < fin) := by
  have four (long : olen ≥ 4) (next : List UInt8 → DhcpOpts) :
      (readBytes o 4 >>= fun value => pure (next value)).Only (· < fin) := by
    apply Prog.Only.bind (ByteReader.readBytes_only (by omega))
    intro value
    trivial
  unfold readOption
  split
  · rename_i has
    have first : o < fin := by omega
    exact Prog.Only.bind (ByteReader.readByte_only first) fun _ => trivial
  split
  · rename_i has
    exact four has.2 _
  split
  · rename_i has
    exact four has.2 _
  split
  · rename_i has
    exact four has.2 _
  split
  · rename_i has
    exact four has.2 _
  split
  · rename_i has
    exact four has.2 _
  · trivial

theorem readOptions_only (o fin : Nat) (opts : DhcpOpts) :
    (readOptions o fin opts).Only (· < fin) := by
  generalize left : fin - o = n
  induction n using Nat.strongRecOn generalizing o opts with
  | ind n ih =>
    rw [readOptions]
    split
    · rename_i inside
      apply Prog.Only.bind
      · exact ByteReader.readByte_only inside
      intro code
      split
      · exact ih (fin - (o + 1)) (by omega) _ _ rfl
      split
      · trivial
      split
      · trivial
      rename_i more
      apply Prog.Only.bind
      · exact ByteReader.readByte_only (by omega)
      intro olen
      split
      · trivial
      · rename_i fits
        apply Prog.Only.bind (readOption_only (by omega))
        intro opts
        exact ih (fin - (o + 2 + olen.toNat)) (by omega) _ _ rfl
    · trivial

theorem readDhcp_only (dev : NetDev) (dlen : Nat) : (readDhcp dev dlen).Only (· < dlen) := by
  unfold readDhcp
  split
  · trivial
  rename_i long
  have low (off : Nat) (header : off < DHCP_OPTS) : (readByte off).Only (· < dlen) :=
    ByteReader.readByte_only (by omega)
  have field (off len : Nat) (header : off + len ≤ DHCP_OPTS) :
      (readBytes off len).Only (· < dlen) := ByteReader.readBytes_only (by omega)
  apply Prog.Only.bind (low 0 (by decide))
  intro op
  split
  · trivial
  apply Prog.Only.bind (low 1 (by decide))
  intro htype
  split
  · trivial
  apply Prog.Only.bind (low 2 (by decide))
  intro hlen
  split
  · trivial
  apply Prog.Only.bind (field 4 4 (by decide))
  intro xid
  split
  · trivial
  apply Prog.Only.bind (field 236 4 (by decide))
  intro magic
  split
  · trivial
  apply Prog.Only.bind (field 28 6 (by decide))
  intro chaddr
  split
  · trivial
  · exact Prog.Only.bind (readOptions_only DHCP_OPTS dlen .start) fun _ => trivial

/-- An address is the first four bytes of a longer value. -/
theorem ofList_take_four (value : List UInt8) :
    (Bytes.ofList (value.take 4) : Ip) = Bytes.ofList value := by
  apply Bytes.ext
  intro i inside
  rw [Bytes.byte_ofList _ _ inside, Bytes.byte_ofList _ _ inside, List.getD_eq_getElem?_getD,
    List.getD_eq_getElem?_getD, List.getElem?_take_of_lt inside]

theorem length_field {src : List UInt8} {off len : Nat} (inside : off + len ≤ src.length) :
    (field src off len).length = len := by
  rw [field, List.length_take, List.length_drop]
  omega

variable (src : List UInt8)

theorem getD_field {off len i : Nat} (inside : i < len) :
    (field src off len).getD i 0 = src.getD (off + i) 0 := by
  rw [field, List.getD_eq_getElem?_getD, List.getElem?_take_of_lt inside, List.getElem?_drop,
    ← List.getD_eq_getElem?_getD]

theorem field_take {off len few : Nat} (less : few ≤ len) :
    (field src off len).take few = field src off few := by
  rw [field, List.take_take, Nat.min_eq_left less, field]

section Value

variable {mem : Nat → UInt8} {d : List UInt8} (holds : ByteReader.Holds mem d)

include holds

theorem value_field {off len : Nat} (inside : off + len ≤ d.length) :
    (readBytes off len).value mem = field d off len := ByteReader.value_readBytes holds inside

theorem value_readOption {code : UInt8} {olen o : Nat} {opts : DhcpOpts}
    (inside : o + olen ≤ d.length) :
    (readOption code olen o opts).value mem = opts.note code (field d o olen) := by
  have length := length_field inside
  have four (long : olen ≥ 4) (next : List UInt8 → DhcpOpts) :
      ByteReader.value mem (readBytes o 4 >>= fun value => pure (next value)) =
        next ((field d o olen).take 4) := by
    rw [ByteReader.value_bind, value_field holds (by omega), field_take d long]
    rfl
  unfold readOption DhcpOpts.note
  rw [length]
  split
  · rename_i has
    rw [ByteReader.value_bind, ByteReader.value_readByte, getD_field d has.2, holds o (by omega)]
    rfl
  split
  · rename_i has
    rw [four has.2, ofList_take_four]
  split
  · rename_i has
    rw [four has.2, ofList_take_four]
  split
  · rename_i has
    rw [four has.2, ofList_take_four]
  split
  · rename_i has
    rw [four has.2, ofList_take_four]
  split
  · rename_i has
    rw [four has.2]
  · rfl

/-- The loop reads what follows `o`. -/
theorem value_readOptions (o : Nat) (opts : DhcpOpts) {fuel : Nat} (enough : d.length - o ≤ fuel) :
    (readOptions o d.length opts).value mem = DhcpOpts.scan fuel (d.drop o) opts := by
  induction fuel generalizing o opts with
  | zero =>
    rw [readOptions, dif_neg (by omega)]
    rfl
  | succ fuel ih =>
    rw [readOptions]
    split
    · rename_i inside
      rw [ByteReader.value_bind, ByteReader.value_readByte, holds.getElem inside,
        List.drop_eq_getElem_cons inside, DhcpOpts.scan.eq_def]
      dsimp only
      split
      · exact ih (o + 1) opts (by omega)
      split
      · rfl
      split
      · rename_i last
        rw [List.drop_eq_nil_of_le last]
        rfl
      rename_i more
      have next : o + 1 < d.length := by omega
      rw [ByteReader.value_bind, ByteReader.value_readByte, holds.getElem next,
        List.drop_eq_getElem_cons next]
      dsimp only
      rw [List.length_drop]
      split
      · rw [if_pos (by omega)]
        rfl
      · rw [if_neg (by omega), ByteReader.value_bind, value_readOption holds (by omega),
          List.drop_drop]
        exact ih _ _ (by omega)
    · rename_i outside
      rw [List.drop_eq_nil_of_le (by omega)]
      rfl

/-- The checks of the function are those of `dhcpAccepts`, and the options are those of
`dhcpOpts`. -/
theorem value_readDhcp (dev : NetDev) : (readDhcp dev d.length).value mem =
    if dhcpAccepts dev d then some (dhcpOpts d) else none := by
  have options : (readOptions DHCP_OPTS d.length .start).value mem = dhcpOpts d :=
    value_readOptions holds DHCP_OPTS .start (Nat.sub_le _ _)
  have accepts : dhcpAccepts dev d = true ↔ _ := decide_eq_true_iff
  have refuse (fails : ¬ dhcpAccepts dev d = true) :
      ByteReader.value mem (pure none : ByteReader (Option DhcpOpts)) =
        if dhcpAccepts dev d then some (dhcpOpts d) else none := by
    rw [if_neg fails]
    rfl
  unfold readDhcp
  split
  · rename_i short
    exact refuse fun all => absurd (accepts.mp all).1 (by omega)
  rename_i long
  unfold DHCP_OPTS at long
  rw [ByteReader.value_bind, ByteReader.value_readByte, holds _ (by omega)]
  split
  · rename_i wrong
    exact refuse fun all => wrong (accepts.mp all).2.1
  rename_i op
  rw [ByteReader.value_bind, ByteReader.value_readByte, holds _ (by omega)]
  split
  · rename_i wrong
    exact refuse fun all => wrong (accepts.mp all).2.2.1
  rename_i htype
  rw [ByteReader.value_bind, ByteReader.value_readByte, holds _ (by omega)]
  split
  · rename_i wrong
    exact refuse fun all => wrong (accepts.mp all).2.2.2.1
  rename_i hlen
  rw [ByteReader.value_bind, value_field holds (by omega)]
  split
  · rename_i wrong
    exact refuse fun all => wrong (accepts.mp all).2.2.2.2.1
  rename_i xid
  rw [ByteReader.value_bind, value_field holds (by omega)]
  split
  · rename_i wrong
    exact refuse fun all => wrong (accepts.mp all).2.2.2.2.2.1
  rename_i magic
  rw [ByteReader.value_bind, value_field holds (by omega)]
  split
  · rename_i wrong
    exact refuse fun all => (accepts.mp all).2.2.2.2.2.2.elim wrong.1 wrong.2
  rename_i mac
  rw [ByteReader.value_bind, options, if_pos]
  · rfl
  · have ours : chaddr d = Bytes.zero ∨ chaddr d = dev.mac := by
      by_contra neither
      exact mac ⟨fun same => neither (.inl same), fun same => neither (.inr same)⟩
    refine accepts.mpr ⟨by unfold DHCP_OPTS; omega, ?_, ?_, ?_, ?_, ?_, ours⟩
    · exact not_not.mp op
    · exact not_not.mp htype
    · exact not_not.mp hlen
    · exact not_not.mp xid
    · exact not_not.mp magic

end Value

theorem exists_items : ∃ items, Items src items := by
  generalize size : src.length = n
  induction n using Nat.strongRecOn generalizing src with
  | ind n ih =>
    cases src with
    | nil => exact ⟨[], .nil⟩
    | cons code rest =>
      rw [List.length_cons] at size
      by_cases pad : code = 0
      · obtain ⟨items, later⟩ := ih rest.length (by omega) rest rfl
        exact ⟨items, pad ▸ .pad later⟩
      by_cases marker : code = 255
      · exact ⟨[], marker ▸ .marker rest⟩
      cases rest with
      | nil => exact ⟨[], .noLength ⟨pad, marker⟩⟩
      | cons olen rest =>
        rw [List.length_cons] at size
        by_cases short : rest.length < olen.toNat
        · exact ⟨[], .cut ⟨pad, marker⟩ short⟩
        · obtain ⟨items, later⟩ := ih (rest.drop olen.toNat).length
            (by rw [List.length_drop]; omega) _ rfl
          have length : (rest.take olen.toNat).length = olen.toNat := by
            rw [List.length_take]
            omega
          have whole := Items.item ⟨pad, marker⟩ length later
          rw [List.take_append_drop] at whole
          exact ⟨_, whole⟩

theorem Items.unique {src : List UInt8} {items items' : List (UInt8 × List UInt8)}
    (left : Items src items) (right : Items src items') : items = items' := by
  induction left generalizing items' with
  | nil =>
    cases right
    rfl
  | pad later ih =>
    cases right with
    | pad later' => exact ih later'
    | noLength option | cut option _ | item option _ _ => exact absurd rfl option.1
  | marker rest =>
    cases right with
    | marker => rfl
    | noLength option | cut option _ | item option _ _ => exact absurd rfl option.2
  | noLength option =>
    cases right with
    | pad _ => exact absurd rfl option.1
    | marker => exact absurd rfl option.2
    | noLength _ => rfl
  | cut option short =>
    cases right with
    | pad _ => exact absurd rfl option.1
    | marker => exact absurd rfl option.2
    | cut _ _ => rfl
    | item _ length _ =>
      rw [List.length_append] at short
      omega
  | @item code olen value rest items option length later ih =>
    generalize whole : value ++ rest = tail at right
    cases right with
    | pad _ => exact absurd rfl option.1
    | marker => exact absurd rfl option.2
    | cut _ short =>
      rw [← whole, List.length_append] at short
      omega
    | item _ length' later' =>
      obtain ⟨rfl, rfl⟩ := List.append_inj whole (length.trans length'.symm)
      rw [ih later']

/-- The loop notes the items in turn. -/
theorem scan_items {src : List UInt8} {items : List (UInt8 × List UInt8)} (has : Items src items)
    {fuel : Nat} (enough : src.length ≤ fuel) (opts : DhcpOpts) :
    DhcpOpts.scan fuel src opts = items.foldl (fun opts item => opts.note item.1 item.2) opts := by
  induction has generalizing fuel opts with
  | nil => cases fuel <;> rfl
  | pad later ih =>
    obtain _ | fuel := fuel
    · cases enough
    rw [List.length_cons] at enough
    rw [DhcpOpts.scan.eq_def]
    exact ih (by omega) opts
  | marker rest =>
    obtain _ | fuel := fuel
    · cases enough
    · rfl
  | noLength option =>
    obtain _ | fuel := fuel
    · cases enough
    rw [DhcpOpts.scan.eq_def]
    dsimp only
    rw [if_neg option.1, if_neg option.2]
    rfl
  | cut option short =>
    obtain _ | fuel := fuel
    · cases enough
    rw [DhcpOpts.scan.eq_def]
    dsimp only
    rw [if_neg option.1, if_neg option.2, if_pos short]
    rfl
  | item option length later ih =>
    obtain _ | fuel := fuel
    · cases enough
    rw [List.length_cons, List.length_cons, List.length_append] at enough
    rw [DhcpOpts.scan.eq_def]
    dsimp only
    rw [if_neg option.1, if_neg option.2, if_neg (by rw [List.length_append]; omega), ← length,
      List.take_left, List.drop_left, ih (by omega), List.foldl_cons]

theorem lastValue_concat (code : UInt8) (least : Nat) (items : List (UInt8 × List UInt8))
    (item : UInt8 × List UInt8) : lastValue code least (items ++ [item]) =
      if item.1 = code ∧ least ≤ item.2.length then some item.2 else lastValue code least items := by
  unfold lastValue
  rw [List.filter_append]
  split
  · rename_i last
    rw [List.filter_singleton, decide_eq_true last, Bool.cond_true, List.getLast?_concat]
    rfl
  · rename_i other
    rw [List.filter_singleton, decide_eq_false other, Bool.cond_false, List.append_nil]

variable (items : List (UInt8 × List UInt8))

theorem ofItems_concat (item : UInt8 × List UInt8) :
    DhcpOpts.ofItems (items ++ [item]) = (DhcpOpts.ofItems items).note item.1 item.2 := by
  obtain ⟨code, value⟩ := item
  unfold DhcpOpts.ofItems DhcpOpts.note
  simp only [lastValue_concat, ge_iff_le]
  -- the codes exclude each other, so at most one field takes the value
  split
  · rename_i has
    simp [has]
  split
  · rename_i has
    simp [has]
  split
  · rename_i has
    simp [has]
  split
  · rename_i has
    simp [has]
  split
  · rename_i has
    simp [has]
  split
  · rename_i has
    simp
  · simp [*]

theorem foldl_note :
    items.foldl (fun opts item => opts.note item.1 item.2) .start = DhcpOpts.ofItems items := by
  induction items using List.reverseRecOn with
  | nil => rfl
  | append_singleton items item ih =>
    rw [List.foldl_append, ih, ofItems_concat]
    rfl

/-- `net_handle_dhcp` looks at bytes of the message only and its loop ends; what it extracts
is, for each option, the last value of the needed length among the items of the option field. -/
theorem dhcp_options_parsed (dev : NetDev) (d : List UInt8) :
    (readDhcp dev d.length).Only (fun off => off < d.length) ∧
      (∀ mem : Nat → UInt8, ByteReader.Holds mem d → (readDhcp dev d.length).value mem =
        if dhcpAccepts dev d then some (dhcpOpts d) else none) ∧
      ∃ items, (∀ other, Items (d.drop DHCP_OPTS) other ↔ other = items) ∧
        dhcpOpts d = DhcpOpts.ofItems items := by
  obtain ⟨items, has⟩ := exists_items (d.drop DHCP_OPTS)
  refine ⟨readDhcp_only dev d.length, fun mem holds => value_readDhcp holds dev, items, ?_, ?_⟩
  · intro other
    constructor
    · intro also
      exact also.unique has
    · intro same
      rwa [same]
  · have enough : (d.drop DHCP_OPTS).length ≤ d.length := by
      rw [List.length_drop]
      exact Nat.sub_le _ _
    rw [dhcpOpts, scan_items has enough, foldl_note]

end SirpairOs.Net
