import NasuaOS.Network.Dhcp

/-!
# DHCP options

`src/resources/drivers/network/functions/dhcp.cpp:179–250`. The bytes behind the magic cookie are a
list of options: pad bytes, and codes with a length and that many bytes, up to an end marker.
`parse_options` accepts exactly these lists, and keeps the last acceptable value of each code.
-/

namespace NasuaOS.Network

open Base List

/-- Bytes that hold a list of codes and values. What stands behind the end marker does not matter. -/
inductive OptionList : Bytes → List (UInt8 × Bytes) → Prop
  | last (rest : Bytes) : OptionList (255 :: rest) []
  | pad {bytes : Bytes} {options : List (UInt8 × Bytes)}
      (more : OptionList bytes options) : OptionList (0 :: bytes) options
  | option {code size : UInt8} {value bytes : Bytes} {options : List (UInt8 × Bytes)}
      (notPad : code ≠ 0) (notLast : code ≠ 255) (complete : value.length = size.toNat)
      (more : OptionList bytes options) :
      OptionList (code :: size :: (value ++ bytes)) ((code, value) :: options)

/-- The last value of a code that has an acceptable length. -/
def lastValue (code : UInt8) (acceptable : Nat → Bool) (options : List (UInt8 × Bytes)) :
    Option Bytes :=
  (options.reverse.find? fun o => o.1 == code && acceptable o.2.length).map Prod.snd

/-- The first four bytes of a value. -/
def addressOf (value : Bytes) : IPAddress :=
  ⟨value.getD 0 0, value.getD 1 0, value.getD 2 0, value.getD 3 0⟩

/-- What a list of options says. -/
def optionsOf (options : List (UInt8 × Bytes)) : DHCPOptions where
  messageType := ((lastValue 53 (· == 1) options).map (·.getD 0 0)).getD 0
  server := ((lastValue 54 (· == 4) options).map addressOf).getD .zero
  mask := ((lastValue 1 (· == 4) options).map addressOf).getD .zero
  router := ((lastValue 3 (4 ≤ ·) options).map addressOf).getD .zero
  dns := ((lastValue 6 (4 ≤ ·) options).map addressOf).getD .zero
  hasMessageType := (lastValue 53 (· == 1) options).isSome
  hasServer := (lastValue 54 (· == 4) options).isSome
  hasMask := (lastValue 1 (· == 4) options).isSome
  hasRouter := (lastValue 3 (4 ≤ ·) options).isSome
  hasDns := (lastValue 6 (4 ≤ ·) options).isSome

variable {lazy : Prop} {packet bytes value : Bytes} {length cursor fuel : Nat}
  {code size : UInt8} {options done : List (UInt8 × Bytes)}

private theorem lastValue_concat (wanted : UInt8) (acceptable : Nat → Bool) :
    lastValue wanted acceptable (done ++ [(code, value)]) =
      if code == wanted && acceptable value.length then some value
      else lastValue wanted acceptable done := by
  rw [lastValue, reverse_concat, find?_cons]
  split
  · next h => simp [h]
  · next h => simp [h, lastValue]

private theorem OptionList.pad_iff : OptionList (0 :: bytes) options ↔ OptionList bytes options := by
  constructor
  · intro h
    cases h with
    | pad more => exact more
    | option notPad => exact absurd rfl notPad
  · exact .pad

private theorem OptionList.last_iff : OptionList (255 :: bytes) options ↔ options = [] := by
  constructor
  · intro h
    cases h with
    | last => rfl
    | option _ notLast => exact absurd rfl notLast
  · rintro rfl
    exact .last bytes

private theorem OptionList.option_iff (notPad : code ≠ 0) (notLast : code ≠ 255) :
    OptionList (code :: size :: bytes) options ↔ size.toNat ≤ bytes.length ∧
      ∃ more, OptionList (bytes.drop size.toNat) more ∧
        options = (code, bytes.take size.toNat) :: more := by
  constructor
  · intro h
    cases h with
    | last => exact absurd rfl notLast
    | pad => exact absurd rfl notPad
    | option _ _ complete more =>
      rw [← complete, drop_left, take_left]
      exact ⟨by simp, _, more, rfl⟩
  · rintro ⟨hlength, more, hmore, rfl⟩
    have hlist := OptionList.option notPad notLast (length_take_of_le hlength) hmore
    rwa [take_append_drop] at hlist

private theorem takeOption_eq (h : cursor + size.toNat ≤ packet.length) :
    takeOption packet cursor code size (optionsOf done) =
      .ok (optionsOf (done ++ [(code, (packet.drop cursor).take size.toNat)])) := by
  have hlength : ((packet.drop cursor).take size.toNat).length = size.toNat := by simp; omega
  have hbyte {k : Nat} (hk : k < size.toNat) : byteAt packet (cursor + k) =
      .ok (((packet.drop cursor).take size.toNat).getD k 0) := by
    rw [byteAt_eq (by omega)]
    simp [getD_eq_getElem?_getD, hk, getElem?_eq_getElem
      (show cursor + k < packet.length by omega)]
  have haddress (hfour : 4 ≤ size.toNat) : readAddress packet cursor =
      .ok (addressOf ((packet.drop cursor).take size.toNat)) := by
    have hfirst := hbyte (k := 0) (by omega)
    rw [Nat.add_zero] at hfirst
    rw [readAddress, hfirst, hbyte (by omega), hbyte (by omega), hbyte (by omega)]
    rfl
  generalize (packet.drop cursor).take size.toNat = value at *
  have hone : size = 1 ↔ value.length = 1 := by
    rw [hlength, ← UInt8.toNat_inj]
    rfl
  have hfour : size = 4 ↔ value.length = 4 := by
    rw [hlength, ← UInt8.toNat_inj]
    rfl
  have hleast : 4 ≤ size ↔ 4 ≤ value.length := by
    rw [hlength, UInt8.le_iff_toNat_le]
    rfl
  rw [← hlength] at haddress hbyte
  simp only [takeOption, hone, hfour, hleast]
  split_ifs with h53 h54 h1 h3 h6
  · have hfirst := hbyte (k := 0) (by omega)
    rw [Nat.add_zero] at hfirst
    rw [hfirst]
    simp [h53, optionsOf, lastValue_concat, bind, Except.bind, pure, Except.pure]
  · rw [haddress (by omega)]
    simp [h54, optionsOf, lastValue_concat, bind, Except.bind, pure, Except.pure]
  · rw [haddress (by omega)]
    simp [h1, optionsOf, lastValue_concat, bind, Except.bind, pure, Except.pure]
  · rw [haddress h3.2]
    simp [h3, optionsOf, lastValue_concat, bind, Except.bind, pure, Except.pure]
  · rw [haddress h6.2]
    simp [h6, optionsOf, lastValue_concat, bind, Except.bind, pure, Except.pure]
  · simp [optionsOf, lastValue_concat, h53, h54, h1, h3, h6, pure, Except.pure]

private theorem next_yields (h : length ≤ packet.length) (hcursor : cursor < length) :
    Yields lazy (byteAt packet cursor) fun b =>
      (packet.take length).drop cursor = b :: (packet.take length).drop (cursor + 1) := by
  rw [byteAt_eq (by omega)]
  refine .ok ?_
  rw [drop_eq_getElem_cons (by simp; omega), getElem_take]

private theorem optionLoop_yields (h : length ≤ packet.length)
    (hfuel : lazy ∨ length < 2 ^ 16 ∧ length - cursor < fuel) :
    Yields lazy (optionLoop packet length fuel cursor (optionsOf done)) fun r => length < 2 ^ 16 →
      ∀ o, r = some (true, o) ↔ ∃ options, OptionList ((packet.take length).drop cursor) options ∧
        o = optionsOf (done ++ options) := by
  induction fuel generalizing cursor done with
  | zero => exact .outOfFuel (hfuel.resolve_right (by omega))
  | succ fuel ih =>
    have hempty (start : Nat) (hstart : length ≤ start) : (packet.take length).drop start = [] :=
      drop_of_length_le (by simp; omega)
    rw [optionLoop]
    split
    · next hcursor =>
      refine .bind (next_yields h hcursor) fun code hcode => ?_
      rw [hcode]
      split
      · next hpad =>
        simp only [hpad, OptionList.pad_iff]
        exact ih (hfuel.imp_right fun hlow => ⟨hlow.1, by omega⟩)
      split
      · next hlast =>
        refine .pure fun _ o => ?_
        simp [hlast, OptionList.last_iff, eq_comm]
      next hpad hlast =>
      change Yields lazy (if _ then _ else _) _
      split
      · next hend =>
        refine .pure fun _ o => ?_
        simp only [hempty _ hend, reduceCtorEq, false_iff]
        rintro ⟨options, ⟨⟩, -⟩ <;> contradiction
      · next hmore =>
        refine .bind (next_yields h (by omega)) fun size hsize => ?_
        rw [hsize]
        simp only [OptionList.option_iff hpad hlast, length_drop, length_take,
          drop_drop]
        split
        · exact .pure fun _ o => by simp; omega
        · rw [takeOption_eq (by omega)]
          refine (ih (hfuel.imp_right fun hlow => ⟨hlow.1, ?_⟩)).mono fun r hr hlow o => ?_
          · rw [Nat.mod_eq_of_lt (by omega)]
            omega
          · have hvalue : ((packet.take length).drop (cursor + 1 + 1)).take size.toNat =
                (packet.drop (cursor + 1 + 1)).take size.toNat := by
              rw [drop_take, take_take, Nat.min_eq_left (by omega)]
            rw [hr hlow, Nat.mod_eq_of_lt (by omega), hvalue]
            constructor
            · rintro ⟨more, hmore, rfl⟩
              exact ⟨_, ⟨by omega, more, hmore, rfl⟩, by simp⟩
            · rintro ⟨_, ⟨-, more, hmore, rfl⟩, rfl⟩
              exact ⟨more, hmore, by simp⟩
    · next hcursor =>
      refine .pure fun _ o => ?_
      rw [hempty cursor (by omega)]
      simp only [Option.some.injEq, Prod.mk.injEq, Bool.false_eq_true, false_and, false_iff]
      rintro ⟨options, ⟨⟩, -⟩

/-- A packet is accepted exactly when the magic cookie is followed by a list of options with a
one-byte option 53 among them. -/
theorem parseOptions_yields (h : length ≤ packet.length) (hlow : lazy ∨ length < 2 ^ 16) :
    Yields lazy (parseOptions packet length) fun r => length < 2 ^ 16 → ∀ o, r = some o ↔
      ((packet.take length).drop 236).take 4 = [99, 130, 83, 99] ∧
      ∃ options, OptionList ((packet.take length).drop 240) options ∧
        (lastValue 53 (· == 1) options).isSome = true ∧ o = optionsOf options := by
  rw [parseOptions]
  split
  · have hcookie : ((packet.take length).drop 236).take 4 ≠ [99, 130, 83, 99] := by
      intro hcookie
      have hfour := congrArg List.length hcookie
      simp at hfour
      omega
    exact .pure fun _ o => by simp [hcookie]
  · have hread : bytesAt packet 236 4 = .ok (((packet.take length).drop 236).take 4) := by
      rw [bytesAt, if_pos (by omega), drop_take, take_take, Nat.min_eq_left (by omega)]
    rw [hread]
    change Yields lazy (if _ then _ else _) _
    split
    · next hcookie => exact .pure fun _ o => by simp [hcookie]
    · next hcookie =>
      rw [ne_eq, not_not] at hcookie
      have hloop := @optionLoop_yields lazy packet length 240 (length + 1) [] h
        (hlow.imp_right fun hlow => ⟨hlow, by omega⟩)
      refine .bind hloop fun r hr => ?_
      have hspec (hlow : length < 2 ^ 16) (o : DHCPOptions) :
          (∃ options, OptionList ((packet.take length).drop 240) options ∧
            (lastValue 53 (· == 1) options).isSome = true ∧ o = optionsOf options) ↔
          r = some (true, o) ∧ o.hasMessageType = true := by
        rw [hr hlow]
        constructor
        · rintro ⟨options, hlist, hsome, rfl⟩
          exact ⟨⟨options, hlist, rfl⟩, hsome⟩
        · rintro ⟨⟨options, hlist, rfl⟩, hsome⟩
          exact ⟨options, hlist, hsome, rfl⟩
      obtain _ | ⟨seen, options⟩ := r
      · exact .pure fun hlow o => by simp [hspec hlow]
      · change Yields lazy (if _ then _ else _) _
        split
        · next hgood =>
          simp only [Bool.and_eq_true] at hgood
          refine .pure fun hlow o => ?_
          simp only [hspec hlow, hcookie, hgood, true_and, Option.some.injEq, Prod.mk.injEq]
          constructor
          · rintro rfl
            exact ⟨rfl, hgood.2⟩
          · exact fun h => h.1
        · next hbad =>
          refine .pure fun hlow o => ?_
          simp only [hspec hlow, hcookie, true_and, reduceCtorEq, Option.some.injEq, Prod.mk.injEq,
            false_iff, not_and]
          rintro ⟨rfl, rfl⟩ htype
          simp [htype] at hbad

/-- Whatever stands behind the packet, `parse_options` returns; and it returns `true` exactly when the
magic cookie is followed by a list of options with a one-byte option 53 among them, with what that
list says. -/
theorem parseOptions_iff (packet beyond : Bytes) (hlength : packet.length < 2 ^ 16) :
    (∃ r, parseOptions (packet ++ beyond) packet.length = .ok r) ∧
    ∀ o, parseOptions (packet ++ beyond) packet.length = .ok (some o) ↔
      (packet.drop 236).take 4 = [99, 130, 83, 99] ∧
      ∃ options, OptionList (packet.drop 240) options ∧
        (lastValue 53 (· == 1) options).isSome = true ∧ o = optionsOf options := by
  have h := @parseOptions_yields False (packet ++ beyond) packet.length (by simp) (.inr hlength)
  obtain ⟨r, hr, hspec⟩ := h.returns
  simp only [take_left] at hspec
  refine ⟨⟨r, hr⟩, fun o => ?_⟩
  rw [hr, Except.ok.injEq, hspec hlength]

/-- A packet with an acknowledgement: the message type, a pad byte and a router. -/
def ackPacket : Bytes :=
  replicate 236 0 ++ [99, 130, 83, 99, 53, 1, 5, 0, 3, 4, 10, 0, 0, 1, 255]

/-- It is accepted. -/
theorem parseOptions_iff_ackPacket :
    parseOptions (ackPacket ++ [1]) ackPacket.length = .ok (some { DHCPOptions.empty with
      messageType := 5, router := ⟨10, 0, 0, 1⟩, hasMessageType := true, hasRouter := true }) := by
  refine ((parseOptions_iff ackPacket [1] (by decide +kernel)).2 _).mpr
    ⟨rfl, [(53, [5]), (3, [10, 0, 0, 1])], ?_, by decide, by decide⟩
  have hrouter : OptionList [3, 4, 10, 0, 0, 1, 255] [(3, [10, 0, 0, 1])] :=
    @OptionList.option 3 4 [10, 0, 0, 1] _ _ (by decide) (by decide) rfl (.last [])
  exact @OptionList.option 53 1 [5] _ _ (by decide) (by decide) rfl hrouter.pad

end NasuaOS.Network
