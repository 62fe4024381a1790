import Vjft.Memory

/-!
# The keys of the terminal (`term/key_map.m4`)

The macro file lists the keys with the bytes that a terminal sends for them, and writes the map in
which the printable keys come first.
-/

namespace Vjft.Term

/-- The bytes of a string literal. -/
def literal (s : String) : Bytes := s.toList.flatMap String.utf8EncodeChar

/-- The arguments of `X` in `KEY_MAP`. -/
structure KeyEntry where
  val : String
  len : ℕ
  str : String
  isPrintable : Bool

/-- The entries in the order of the file. -/
def keyEntries : List KeyEntry := [
  ⟨"KEY_UNKNOWN", 0, "", false⟩,
  ⟨"KEY_ESC", 1, "\x1b", false⟩,
  ⟨"KEY_TAB", 1, "\x09", false⟩,
  ⟨"KEY_SHIFT_TAB", 3, "\x1b[Z", false⟩,
  ⟨"KEY_BACKSPACE", 1, "\x7f", false⟩,
  ⟨"KEY_CTRL_BACKSPACE", 1, "\x08", false⟩,
  ⟨"KEY_ALT_BACKSPACE", 2, "\x1b\x7f", false⟩,
  ⟨"KEY_CTRL_ALT_BACKSPACE", 2, "\x1b\x08", false⟩,
  ⟨"KEY_HOME", 3, "\x1b[H", false⟩,
  ⟨"KEY_SHIFT_HOME", 6, "\x1b[1;2~", false⟩,
  ⟨"KEY_ALT_HOME", 6, "\x1b[1;3H", false⟩,
  ⟨"KEY_CTRL_HOME", 6, "\x1b[1;5H", false⟩,
  ⟨"KEY_ALT_CTRL_HOME", 6, "\x1b[1;7H", false⟩,
  ⟨"KEY_END", 3, "\x1b[F", false⟩,
  ⟨"KEY_ALT_END", 6, "\x1b[1;3F", false⟩,
  ⟨"KEY_CTRL_END", 6, "\x1b[1;5F", false⟩,
  ⟨"KEY_ALT_CTRL_END", 6, "\x1b[1;7F", false⟩,
  ⟨"KEY_INSERT", 4, "\x1b[2~", false⟩,
  ⟨"KEY_ALT_INSERT", 6, "\x1b[2;3~", false⟩,
  ⟨"KEY_DELETE", 4, "\x1b[3~", false⟩,
  ⟨"KEY_SHIFT_DELETE", 6, "\x1b[3;2~", false⟩,
  ⟨"KEY_ALT_DELETE", 6, "\x1b[3;3~", false⟩,
  ⟨"KEY_SHIFT_ALT_DELETE", 6, "\x1b[3;4~", false⟩,
  ⟨"KEY_CTRL_DELETE", 6, "\x1b[3;5~", false⟩,
  ⟨"KEY_SHIFT_CTRL_DELETE", 6, "\x1b[3;6~", false⟩,
  ⟨"KEY_PGUP", 4, "\x1b[5~", false⟩,
  ⟨"KEY_ALT_PGUP", 6, "\x1b[5;3~", false⟩,
  ⟨"KEY_ALT_CTRL_PGUP", 6, "\x1b[5;7~", false⟩,
  ⟨"KEY_PGDOWN", 4, "\x1b[6~", false⟩,
  ⟨"KEY_ALT_PGDOWN", 6, "\x1b[6;3~", false⟩,
  ⟨"KEY_ALT_CTRL_PGDOWN", 6, "\x1b[6;7~", false⟩,
  ⟨"KEY_UP", 3, "\x1b\x5b\x41", false⟩,
  ⟨"KEY_ALT_UP", 6, "\x1b\x5b\x31\x3b\x33\x41", false⟩,
  ⟨"KEY_SHIFT_ALT_UP", 6, "\x1b\x5b\x31\x3b\x34\x41", false⟩,
  ⟨"KEY_CTRL_UP", 6, "\x1b\x5b\x31\x3b\x35\x41", false⟩,
  ⟨"KEY_DOWN", 3, "\x1b\x5b\x42", false⟩,
  ⟨"KEY_ALT_DOWN", 6, "\x1b\x5b\x31\x3b\x33\x42", false⟩,
  ⟨"KEY_SHIFT_ALT_DOWN", 6, "\x1b\x5b\x31\x3b\x34\x42", false⟩,
  ⟨"KEY_CTRL_DOWN", 6, "\x1b\x5b\x31\x3b\x35\x42", false⟩,
  ⟨"KEY_RIGHT", 3, "\x1b\x5b\x43", false⟩,
  ⟨"KEY_ALT_RIGHT", 6, "\x1b\x5b\x31\x3b\x33\x43", false⟩,
  ⟨"KEY_SHIFT_ALT_RIGHT", 6, "\x1b\x5b\x31\x3b\x34\x43", false⟩,
  ⟨"KEY_CTRL_RIGHT", 6, "\x1b\x5b\x31\x3b\x35\x43", false⟩,
  ⟨"KEY_LEFT", 3, "\x1b\x5b\x44", false⟩,
  ⟨"KEY_ALT_LEFT", 6, "\x1b\x5b\x31\x3b\x33\x44", false⟩,
  ⟨"KEY_SHIFT_ALT_LEFT", 6, "\x1b\x5b\x31\x3b\x34\x44", false⟩,
  ⟨"KEY_CTRL_LEFT", 6, "\x1b\x5b\x31\x3b\x35\x44", false⟩,
  ⟨"KEY_ENTER", 1, "\x0a", false⟩,
  ⟨"KEY_ALT_ENTER", 2, "\x1b\x0a", false⟩,
  ⟨"KEY_F1", 3, "\x1bOP", false⟩,
  ⟨"KEY_SHIFT_F1", 6, "\x1b[1;2P", false⟩,
  ⟨"KEY_ALT_F1", 6, "\x1b[1;3P", false⟩,
  ⟨"KEY_SHIFT_ALT_F1", 6, "\x1b[1;4P", false⟩,
  ⟨"KEY_CTRL_F1", 6, "\x1b[1;5P", false⟩,
  ⟨"KEY_SHIFT_CTRL_F1", 6, "\x1b[1;6P", false⟩,
  ⟨"KEY_F2", 3, "\x1bOQ", false⟩,
  ⟨"KEY_SHIFT_F2", 6, "\x1b[1;2Q", false⟩,
  ⟨"KEY_ALT_F2", 6, "\x1b[1;3Q", false⟩,
  ⟨"KEY_SHIFT_ALT_F2", 6, "\x1b[1;4Q", false⟩,
  ⟨"KEY_CTRL_F2", 6, "\x1b[1;5Q", false⟩,
  ⟨"KEY_SHIFT_CTRL_F2", 6, "\x1b[1;6Q", false⟩,
  ⟨"KEY_F3", 3, "\x1bOR", false⟩,
  ⟨"KEY_SHIFT_F3", 6, "\x1b[1;2R", false⟩,
  ⟨"KEY_ALT_F3", 6, "\x1b[1;3R", false⟩,
  ⟨"KEY_SHIFT_ALT_F3", 6, "\x1b[1;4R", false⟩,
  ⟨"KEY_CTRL_F3", 6, "\x1b[1;5R", false⟩,
  ⟨"KEY_SHIFT_CTRL_F3", 6, "\x1b[1;6R", false⟩,
  ⟨"KEY_F4", 3, "\x1bOS", false⟩,
  ⟨"KEY_SHIFT_F4", 6, "\x1b[1;2S", false⟩,
  ⟨"KEY_ALT_F4", 6, "\x1b[1;3S", false⟩,
  ⟨"KEY_SHIFT_ALT_F4", 6, "\x1b[1;4S", false⟩,
  ⟨"KEY_CTRL_F4", 6, "\x1b[1;5S", false⟩,
  ⟨"KEY_SHIFT_CTRL_F4", 6, "\x1b[1;6S", false⟩,
  ⟨"KEY_F5", 5, "\x1b[15~", false⟩,
  ⟨"KEY_SHIFT_F5", 7, "\x1b[15;2~", false⟩,
  ⟨"KEY_ALT_F5", 7, "\x1b[15;3~", false⟩,
  ⟨"KEY_SHIFT_ALT_F5", 7, "\x1b[15;4~", false⟩,
  ⟨"KEY_CTRL_F5", 7, "\x1b[15;5~", false⟩,
  ⟨"KEY_SHIFT_CTRL_F5", 7, "\x1b[15;6~", false⟩,
  ⟨"KEY_F6", 5, "\x1b[17~", false⟩,
  ⟨"KEY_SHIFT_F6", 7, "\x1b[17;2~", false⟩,
  ⟨"KEY_ALT_F6", 7, "\x1b[17;3~", false⟩,
  ⟨"KEY_SHIFT_ALT_F6", 7, "\x1b[17;4~", false⟩,
  ⟨"KEY_CTRL_F6", 7, "\x1b[17;5~", false⟩,
  ⟨"KEY_SHIFT_CTRL_F6", 7, "\x1b[17;6~", false⟩,
  ⟨"KEY_F7", 5, "\x1b[18~", false⟩,
  ⟨"KEY_SHIFT_F7", 7, "\x1b[18;2~", false⟩,
  ⟨"KEY_ALT_F7", 7, "\x1b[18;3~", false⟩,
  ⟨"KEY_SHIFT_ALT_F7", 7, "\x1b[18;4~", false⟩,
  ⟨"KEY_CTRL_F7", 7, "\x1b[18;5~", false⟩,
  ⟨"KEY_SHIFT_CTRL_F7", 7, "\x1b[18;6~", false⟩,
  ⟨"KEY_F8", 5, "\x1b[19~", false⟩,
  ⟨"KEY_SHIFT_F8", 7, "\x1b[19;2~", false⟩,
  ⟨"KEY_ALT_F8", 7, "\x1b[19;3~", false⟩,
  ⟨"KEY_SHIFT_ALT_F8", 7, "\x1b[19;4~", false⟩,
  ⟨"KEY_CTRL_F8", 7, "\x1b[19;5~", false⟩,
  ⟨"KEY_SHIFT_CTRL_F8", 7, "\x1b[19;6~", false⟩,
  ⟨"KEY_F9", 5, "\x1b[20~", false⟩,
  ⟨"KEY_SHIFT_F9", 7, "\x1b[20;2~", false⟩,
  ⟨"KEY_ALT_F9", 7, "\x1b[20;3~", false⟩,
  ⟨"KEY_SHIFT_ALT_F9", 7, "\x1b[20;4~", false⟩,
  ⟨"KEY_CTRL_F9", 7, "\x1b[20;5~", false⟩,
  ⟨"KEY_SHIFT_CTRL_F9", 7, "\x1b[20;6~", false⟩,
  ⟨"KEY_F10", 5, "\x1b[21~", false⟩,
  ⟨"KEY_SHIFT_F10", 7, "\x1b[21;2~", false⟩,
  ⟨"KEY_ALT_F10", 7, "\x1b[21;3~", false⟩,
  ⟨"KEY_SHIFT_ALT_F10", 7, "\x1b[21;4~", false⟩,
  ⟨"KEY_CTRL_F10", 7, "\x1b[21;5~", false⟩,
  ⟨"KEY_SHIFT_CTRL_F10", 7, "\x1b[21;6~", false⟩,
  ⟨"KEY_F11", 5, "\x1b[23~", false⟩,
  ⟨"KEY_SHIFT_F11", 7, "\x1b[23;2~", false⟩,
  ⟨"KEY_ALT_F11", 7, "\x1b[23;3~", false⟩,
  ⟨"KEY_SHIFT_ALT_F11", 7, "\x1b[23;4~", false⟩,
  ⟨"KEY_CTRL_F11", 7, "\x1b[23;5~", false⟩,
  ⟨"KEY_SHIFT_CTRL_F11", 7, "\x1b[23;6~", false⟩,
  ⟨"KEY_F12", 5, "\x1b[24~", false⟩,
  ⟨"KEY_SHIFT_F12", 7, "\x1b[24;2~", false⟩,
  ⟨"KEY_ALT_F12", 7, "\x1b[24;3~", false⟩,
  ⟨"KEY_SHIFT_ALT_F12", 7, "\x1b[24;4~", false⟩,
  ⟨"KEY_CTRL_F12", 7, "\x1b[24;5~", false⟩,
  ⟨"KEY_SHIFT_CTRL_F12", 7, "\x1b[24;6~", false⟩,
  ⟨"KEY_BACKTICK", 1, "\x60", true⟩,
  ⟨"KEY_SHIFT_BACKTICK_IS_TILDE", 1, "\x7e", true⟩,
  ⟨"KEY_CTRL_BACKTICK", 1, "", false⟩,
  ⟨"KEY_SHIFT_CTRL_BACKTICK_IS_CTRL_TILDE", 1, "\x1e", false⟩,
  ⟨"KEY_SHIFT_ALT_CTRL_BACKTICK_ALT_CTRL_TILDE", 2, "\x1b\x1e", false⟩,
  ⟨"KEY_1", 1, "\x31", true⟩,
  ⟨"KEY_SHIFT_1_IS_EXCL", 1, "\x21", true⟩,
  ⟨"KEY_SHIFT_ALT_1_IS_ALT_EXCL", 2, "\x1b\x21", false⟩,
  ⟨"KEY_ALT_CTRL_1", 2, "\x1b\x31", false⟩,
  ⟨"KEY_2", 1, "\x32", true⟩,
  ⟨"KEY_SHIFT_2_IS_ATSIGN", 1, "\x40", true⟩,
  ⟨"KEY_SHIFT_ALT_2_IS_ALT_ATSIGN", 2, "\x1b\x40", false⟩,
  ⟨"KEY_SHIFT_ALT_CTRL_2_IS_ALT_CTRL_ATSIGN", 2, "\x1b\x00", false⟩,
  ⟨"KEY_3", 1, "\x33", true⟩,
  ⟨"KEY_SHIFT_3_IS_NUMBERSIGN", 1, "\x23", true⟩,
  ⟨"KEY_SHIFT_ALT_3_IS_ALT_NUMBERSIGN", 2, "\x1b\x23", false⟩,
  ⟨"KEY_4", 1, "\x34", true⟩,
  ⟨"KEY_SHIFT_4_IS_DOLLARSIGN", 1, "\x24", true⟩,
  ⟨"KEY_SHIFT_ALT_4_IS_ALT_DOLLARSIGN", 2, "\x1b\x24", false⟩,
  ⟨"KEY_5", 1, "\x35", true⟩,
  ⟨"KEY_SHIFT_5_IS_PERCENTSIGN", 1, "\x25", true⟩,
  ⟨"KEY_SHIFT_ALT_5_IS_ALT_PERCENTSIGN", 2, "\x1b\x25", false⟩,
  ⟨"KEY_6", 1, "\x36", true⟩,
  ⟨"KEY_SHIFT_6_IS_CARET", 1, "\x5e", true⟩,
  ⟨"KEY_SHIFT_ALT_6_IS_ALT_CARET", 2, "\x1b\x5e", false⟩,
  ⟨"KEY_7", 1, "\x37", true⟩,
  ⟨"KEY_SHIFT_7_IS_AMPERSAND", 1, "\x26", true⟩,
  ⟨"KEY_SHIFT_ALT_7_IS_ALT_AMPERSAND", 2, "\x1b\x26", false⟩,
  ⟨"KEY_8", 1, "\x38", true⟩,
  ⟨"KEY_SHIFT_8_IS_ASTERISK", 1, "\x2a", true⟩,
  ⟨"KEY_SHIFT_ALT_8_IS_ALT_ASTERISK", 2, "\x1b\x2a", false⟩,
  ⟨"KEY_9", 1, "\x39", true⟩,
  ⟨"KEY_SHIFT_9_IS_LEFT_PAREN", 1, "\x28", true⟩,
  ⟨"KEY_SHIFT_ALT_9_IS_ALT_LEFT_PAREN", 2, "\x1b\x28", false⟩,
  ⟨"KEY_ALT_CTRL_9", 2, "\x1b\x39", false⟩,
  ⟨"KEY_0", 1, "\x30", true⟩,
  ⟨"KEY_SHIFT_0_IS_RIGHT_PAREN", 1, "\x29", true⟩,
  ⟨"KEY_SHIFT_ALT_0_IS_ALT_RIGHT_PAREN", 2, "\x1b\x29", false⟩,
  ⟨"KEY_ALT_CTRL_0", 2, "\x1b\x30", false⟩,
  ⟨"KEY_SHIFT_MINUS_IS_UNDERSCORE", 1, "_", true⟩,
  ⟨"KEY_MINUS", 1, "-", true⟩,
  ⟨"KEY_ALT_MINUS", 2, "\x1b-", false⟩,
  ⟨"KEY_SHIFT_ALT_MINUS_IS_ALT_UNDERSCORE", 2, "\x1b_", false⟩,
  ⟨"KEY_EQ", 1, "=", true⟩,
  ⟨"KEY_SHIFT_EQ_IS_PLUS", 1, "+", true⟩,
  ⟨"KEY_ALT_EQ", 2, "\x1b=", false⟩,
  ⟨"KEY_SHIFT_ALT_EQ_IS_ALT_PLUS", 2, "\x1b+", false⟩,
  ⟨"KEY_Q", 1, "q", true⟩,
  ⟨"KEY_SHIFT_Q", 1, "Q", true⟩,
  ⟨"KEY_ALT_Q", 2, "\x1b\x71", false⟩,
  ⟨"KEY_SHIFT_ALT_Q", 2, "\x1b\x51", false⟩,
  ⟨"KEY_CYRILLIC_SHORT_I", 2, "й", true⟩,
  ⟨"KEY_SHIFT_CYRILLIC_SHORT_I", 2, "Й", true⟩,
  ⟨"KEY_ALT_CYRILLIC_SHORT_I", 3, "\x1bй", false⟩,
  ⟨"KEY_SHIFT_ALT_CYRILLIC_SHORT_I", 3, "\x1bЙ", false⟩,
  ⟨"KEY_W", 1, "w", true⟩,
  ⟨"KEY_SHIFT_W", 1, "W", true⟩,
  ⟨"KEY_ALT_W", 2, "\x1b\x77", false⟩,
  ⟨"KEY_SHIFT_ALT_W", 2, "\x1b\x57", false⟩,
  ⟨"KEY_CTRL_W", 1, "\x17", false⟩,
  ⟨"KEY_ALT_CTRL_W", 2, "\x1b\x17", false⟩,
  ⟨"KEY_CYRILLIC_TSE", 2, "ц", true⟩,
  ⟨"KEY_SHIFT_CYRILLIC_TSE", 2, "Ц", true⟩,
  ⟨"KEY_ALT_CYRILLIC_TSE", 3, "\x1bц", false⟩,
  ⟨"KEY_ALT_SHIFT_CYRILLIC_TSE", 3, "\x1bЦ", false⟩,
  ⟨"KEY_E", 1, "e", true⟩,
  ⟨"KEY_SHIFT_E", 1, "E", true⟩,
  ⟨"KEY_ALT_E", 2, "\x1b\x65", false⟩,
  ⟨"KEY_SHIFT_ALT_E", 2, "\x1b\x45", false⟩,
  ⟨"KEY_CTRL_E", 1, "\x05", false⟩,
  ⟨"KEY_ALT_CTRL_E", 2, "\x1b\x05", false⟩,
  ⟨"KEY_CYRILLIC_U", 2, "у", true⟩,
  ⟨"KEY_SHIFT_CYRILLIC_U", 2, "У", true⟩,
  ⟨"KEY_ALT_CYRILLIC_U", 3, "\x1bу", false⟩,
  ⟨"KEY_SHIFT_ALT_CYRILLIC_U", 3, "\x1bУ", false⟩,
  ⟨"KEY_R", 1, "r", true⟩,
  ⟨"KEY_SHIFT_R", 1, "R", true⟩,
  ⟨"KEY_ALT_R", 2, "\x1b\x72", false⟩,
  ⟨"KEY_SHIFT_ALT_R", 2, "\x1b\x52", false⟩,
  ⟨"KEY_CTRL_R", 1, "\x12", false⟩,
  ⟨"KEY_ALT_CTRL_R", 2, "\x1b\x12", false⟩,
  ⟨"KEY_CYRILLIC_K", 2, "к", true⟩,
  ⟨"KEY_SHIFT_CYRILLIC_K", 2, "К", true⟩,
  ⟨"KEY_ALT_CYRILLIC_K", 3, "\x1bк", false⟩,
  ⟨"KEY_SHIFT_ALT_CYRILLIC_K", 3, "\x1bК", false⟩,
  ⟨"KEY_T", 1, "t", true⟩,
  ⟨"KEY_SHIFT_T", 1, "T", true⟩,
  ⟨"KEY_ALT_T", 2, "\x1b\x74", false⟩,
  ⟨"KEY_SHIFT_ALT_T", 2, "\x1b\x54", false⟩,
  ⟨"KEY_CTRL_T", 1, "\x14", false⟩,
  ⟨"KEY_ALT_CTRL_T", 2, "\x1b\x14", false⟩,
  ⟨"KEY_CYRILLIC_EH", 2, "е", true⟩,
  ⟨"KEY_SHIFT_CYRILLIC_EH", 2, "Е", true⟩,
  ⟨"KEY_ALT_CYRILLIC_EH", 3, "\x1bе", false⟩,
  ⟨"KEY_SHIFT_ALT_CYRILLIC_EH", 3, "\x1bЕ", false⟩,
  ⟨"KEY_Y", 1, "y", true⟩,
  ⟨"KEY_SHIFT_Y", 1, "Y", true⟩,
  ⟨"KEY_ALT_Y", 2, "\x1b\x79", false⟩,
  ⟨"KEY_SHIFT_ALT_Y", 2, "\x1b\x59", false⟩,
  ⟨"KEY_CTRL_Y", 1, "\x19", false⟩,
  ⟨"KEY_ALT_CTRL_Y", 2, "\x1b\x19", false⟩,
  ⟨"KEY_CYRILLIC_EN", 2, "н", true⟩,
  ⟨"KEY_SHIFT_CYRILLIC_EN", 2, "Н", true⟩,
  ⟨"KEY_ALT_CYRILLIC_EN", 3, "\x1bн", false⟩,
  ⟨"KEY_SHIFT_ALT_CYRILLIC_EN", 3, "\x1bН", false⟩,
  ⟨"KEY_U", 1, "u", true⟩,
  ⟨"KEY_SHIFT_U", 1, "U", true⟩,
  ⟨"KEY_ALT_U", 2, "\x1b\x75", false⟩,
  ⟨"KEY_SHIFT_ALT_U", 2, "\x1b\x55", false⟩,
  ⟨"KEY_CTRL_U", 1, "\x15", false⟩,
  ⟨"KEY_ALT_CTRL_U", 2, "\x1b\x15", false⟩,
  ⟨"KEY_CYRILLIC_GE", 2, "г", true⟩,
  ⟨"KEY_SHIFT_CYRILLIC_GE", 2, "Г", true⟩,
  ⟨"KEY_ALT_CYRILLIC_GE", 3, "\x1bг", false⟩,
  ⟨"KEY_SHIFT_ALT_CYRILLIC_GE", 3, "\x1bГ", false⟩,
  ⟨"KEY_I", 1, "i", true⟩,
  ⟨"KEY_SHIFT_I", 1, "I", true⟩,
  ⟨"KEY_ALT_I", 2, "\x1b\x69", false⟩,
  ⟨"KEY_SHIFT_ALT_I", 2, "\x1b\x49", false⟩,
  ⟨"KEY_ALT_CTRL_I", 2, "\x1b\x09", false⟩,
  ⟨"KEY_CYRILLIC_SHA", 2, "ш", true⟩,
  ⟨"KEY_SHIFT_CYRILLIC_SHA", 2, "Ш", true⟩,
  ⟨"KEY_ALT_CYRILLIC_SHA", 3, "\x1bш", false⟩,
  ⟨"KEY_SHIFT_ALT_CYRILLIC_SHA", 3, "\x1bШ", false⟩,
  ⟨"KEY_O", 1, "o", true⟩,
  ⟨"KEY_SHIFT_O", 1, "O", true⟩,
  ⟨"KEY_ALT_O", 2, "\x1b\x6f", false⟩,
  ⟨"KEY_SHIFT_ALT_O", 2, "\x1b\x4f", false⟩,
  ⟨"KEY_CTRL_O", 1, "\x0f", false⟩,
  ⟨"KEY_ALT_CTRL_O", 2, "\x1b\x0f", false⟩,
  ⟨"KEY_CYRILLIC_SHCHA", 2, "щ", true⟩,
  ⟨"KEY_SHIFT_CYRILLIC_SHCHA", 2, "Щ", true⟩,
  ⟨"KEY_ALT_CYRILLIC_SHCHA", 3, "\x1bщ", false⟩,
  ⟨"KEY_SHIFT_ALT_CYRILLIC_SHCHA", 3, "\x1bЩ", false⟩,
  ⟨"KEY_P", 1, "p", true⟩,
  ⟨"KEY_SHIFT_P", 1, "P", true⟩,
  ⟨"KEY_ALT_P", 2, "\x1b\x70", false⟩,
  ⟨"KEY_SHIFT_ALT_P", 2, "\x1b\x50", false⟩,
  ⟨"KEY_CTRL_P", 1, "\x10", false⟩,
  ⟨"KEY_ALT_CTRL_P", 2, "\x1b\x10", false⟩,
  ⟨"KEY_CYRILLIC_ZE", 2, "з", true⟩,
  ⟨"KEY_SHIFT_CYRILLIC_ZE", 2, "З", true⟩,
  ⟨"KEY_ALT_CYRILLIC_ZE", 3, "\x1bз", false⟩,
  ⟨"KEY_SHIFT_ALT_CYRILLIC_ZE", 3, "\x1bЗ", false⟩,
  ⟨"KEY_LEFT_SQUARE_BRACKET", 1, "[", true⟩,
  ⟨"KEY_SHIFT_LEFT_SQUARE_BRACKET_IS_LEFT_CURVE_BRACKET", 1, "\x7b", true⟩,
  ⟨"KEY_ALT_LEFT_SQUARE_BRACKET", 2, "\x1b\x5b", false⟩,
  ⟨"KEY_SHIFT_ALT_LEFT_SQUARE_BRACKET", 2, "\x1b\x7b", false⟩,
  ⟨"KEY_ALT_CTRL_LEFT_SQUARE_BRACKET", 2, "\x1b\x1b", false⟩,
  ⟨"KEY_CYRILLIC_KHA", 2, "х", true⟩,
  ⟨"KEY_SHIFT_CYRILLIC_KHA", 2, "Х", true⟩,
  ⟨"KEY_ALT_CYRILLIC_KHA", 3, "\x1bх", false⟩,
  ⟨"KEY_SHIFT_ALT_CYRILLIC_KHA", 3, "\x1bХ", false⟩,
  ⟨"KEY_RIGHT_SQUARE_BRACKET", 1, "]", true⟩,
  ⟨"KEY_ALT_RIGHT_SQUARE_BRACKET", 2, "\x1b\x5d", true⟩,
  ⟨"KEY_SHIFT_ALT_RIGHT_SQUARE_BRACKET", 2, "\x1b\x7d", false⟩,
  ⟨"KEY_CTRL_RIGHT_SQUARE_BRACKET", 1, "\x1d", false⟩,
  ⟨"KEY_ALT_CTRL_RIGHT_SQUARE_BRACKET", 2, "\x1b\x1d", false⟩,
  ⟨"KEY_SHIFT_RIGHT_SQUARE_BRACKET_IS_RIGHT_CURVE_BRACKET", 1, "\x7d", false⟩,
  ⟨"KEY_CYRILLIC_HARDSIGN", 2, "ъ", true⟩,
  ⟨"KEY_SHIFT_CYRILLIC_HARDSIGN", 2, "Ъ", true⟩,
  ⟨"KEY_ALT_CYRILLIC_HARDSIGN", 3, "\x1bъ", false⟩,
  ⟨"KEY_SHIFT_ALT_CYRILLIC_HARDSIGN", 3, "\x1bЪ", false⟩,
  ⟨"KEY_BACKSLASH", 1, "\\", true⟩,
  ⟨"KEY_SHIFT_BACKSLASH_IS_VERTICAL_LINE", 1, "|", true⟩,
  ⟨"KEY_ALT_BACKSLASH", 2, "\x1b\x5c", false⟩,
  ⟨"KEY_SHIFT_ALT_BACKSLASH", 2, "\x1b\x7c", false⟩,
  ⟨"KEY_A", 1, "a", true⟩,
  ⟨"KEY_SHIFT_A", 1, "A", true⟩,
  ⟨"KEY_ALT_A", 2, "\x1b\x61", false⟩,
  ⟨"KEY_SHIFT_ALT_A", 2, "\x1b\x41", false⟩,
  ⟨"KEY_CTRL_A", 1, "\x01", false⟩,
  ⟨"KEY_ALT_CTRL_A", 2, "\x1b\x01", false⟩,
  ⟨"KEY_CYRILLIC_EF", 2, "ф", true⟩,
  ⟨"KEY_SHIFT_CYRILLIC_EF", 2, "Ф", true⟩,
  ⟨"KEY_ALT_CYRILLIC_EF", 3, "\x1bф", false⟩,
  ⟨"KEY_SHIFT_ALT_CYRILLIC_EF", 3, "\x1bФ", false⟩,
  ⟨"KEY_S", 1, "s", true⟩,
  ⟨"KEY_SHIFT_S", 1, "S", true⟩,
  ⟨"KEY_ALT_S", 2, "\x1b\x73", false⟩,
  ⟨"KEY_SHIFT_ALT_S", 2, "\x1b\x53", false⟩,
  ⟨"KEY_CYRILLIC_YERY", 2, "ы", true⟩,
  ⟨"KEY_SHIFT_CYRILLIC_YERY", 2, "Ы", true⟩,
  ⟨"KEY_ALT_CYRILLIC_YERY", 3, "\x1bы", false⟩,
  ⟨"KEY_SHIFT_ALT_CYRILLIC_YERY", 3, "\x1bЫ", false⟩,
  ⟨"KEY_D", 1, "d", true⟩,
  ⟨"KEY_SHIFT_D", 1, "D", true⟩,
  ⟨"KEY_ALT_D", 2, "\x1b\x64", false⟩,
  ⟨"KEY_SHIFT_ALT_D", 2, "\x1b\x44", false⟩,
  ⟨"KEY_CTRL_D", 1, "\x04", false⟩,
  ⟨"KEY_ALT_CTRL_D", 2, "\x1b\x04", false⟩,
  ⟨"KEY_CYRILLIC_VE", 2, "в", true⟩,
  ⟨"KEY_SHIFT_CYRILLIC_VE", 2, "В", true⟩,
  ⟨"KEY_ALT_CYRILLIC_VE", 3, "\x1bв", false⟩,
  ⟨"KEY_SHIFT_ALT_CYRILLIC_VE", 3, "\x1bВ", false⟩,
  ⟨"KEY_F", 1, "f", true⟩,
  ⟨"KEY_SHIFT_F", 1, "F", true⟩,
  ⟨"KEY_ALT_F", 2, "\x1b\x66", false⟩,
  ⟨"KEY_SHIFT_ALT_F", 2, "\x1b\x46", false⟩,
  ⟨"KEY_CTRL_F", 1, "\x06", false⟩,
  ⟨"KEY_ALT_CTRL_F", 2, "\x1b\x06", false⟩,
  ⟨"KEY_CYRILLIC_A", 2, "а", true⟩,
  ⟨"KEY_SHIFT_CYRILLIC_A", 2, "А", true⟩,
  ⟨"KEY_ALT_CYRILLIC_A", 3, "\x1bа", false⟩,
  ⟨"KEY_SHIFT_ALT_CYRILLIC_A", 3, "\x1bА", false⟩,
  ⟨"KEY_G", 1, "g", true⟩,
  ⟨"KEY_SHIFT_G", 1, "G", true⟩,
  ⟨"KEY_ALT_G", 2, "\x1b\x67", false⟩,
  ⟨"KEY_SHIFT_ALT_G", 2, "\x1b\x47", false⟩,
  ⟨"KEY_CTRL_G", 1, "\x07", false⟩,
  ⟨"KEY_ALT_CTRL_G", 2, "\x1b\x07", false⟩,
  ⟨"KEY_CYRILLIC_PE", 2, "п", true⟩,
  ⟨"KEY_SHIFT_CYRILLIC_PE", 2, "П", true⟩,
  ⟨"KEY_ALT_CYRILLIC_PE", 3, "\x1bп", false⟩,
  ⟨"KEY_SHIFT_ALT_CYRILLIC_PE", 3, "\x1bП", false⟩,
  ⟨"KEY_H", 1, "h", true⟩,
  ⟨"KEY_SHIFT_H", 1, "H", true⟩,
  ⟨"KEY_ALT_H", 2, "\x1b\x68", false⟩,
  ⟨"KEY_SHIFT_ALT_H", 2, "\x1b\x48", false⟩,
  ⟨"KEY_CYRILLIC_ER", 2, "р", true⟩,
  ⟨"KEY_SHIFT_CYRILLIC_ER", 2, "Р", true⟩,
  ⟨"KEY_ALT_CYRILLIC_ER", 3, "\x1bр", false⟩,
  ⟨"KEY_SHIFT_ALT_CYRILLIC_ER", 3, "\x1bР", false⟩,
  ⟨"KEY_J", 1, "j", true⟩,
  ⟨"KEY_SHIFT_J", 1, "J", true⟩,
  ⟨"KEY_ALT_J", 2, "\x1b\x67", false⟩,
  ⟨"KEY_SHIFT_ALT_J", 2, "\x1b\x4a", false⟩,
  ⟨"KEY_CYRILLIC_O", 2, "о", true⟩,
  ⟨"KEY_SHIFT_CYRILLIC_O", 2, "О", true⟩,
  ⟨"KEY_ALT_CYRILLIC_O", 3, "\x1bо", false⟩,
  ⟨"KEY_SHIFT_ALT_CYRILLIC_O", 3, "\x1bО", false⟩,
  ⟨"KEY_K", 1, "k", true⟩,
  ⟨"KEY_SHIFT_K", 1, "K", true⟩,
  ⟨"KEY_ALT_K", 2, "\x1b\x6b", false⟩,
  ⟨"KEY_SHIFT_ALT_K", 2, "\x1b\x4b", false⟩,
  ⟨"KEY_CTRL_K", 1, "\x0b", false⟩,
  ⟨"KEY_ALT_CTRL_K", 2, "\x1b\x0b", false⟩,
  ⟨"KEY_CYRILLIC_EL", 2, "л", true⟩,
  ⟨"KEY_SHIFT_CYRILLIC_EL", 2, "Л", true⟩,
  ⟨"KEY_ALT_CYRILLIC_EL", 3, "\x1bл", false⟩,
  ⟨"KEY_SHIFT_ALT_CYRILLIC_EL", 3, "\x1bЛ", false⟩,
  ⟨"KEY_L", 1, "l", true⟩,
  ⟨"KEY_SHIFT_L", 1, "L", true⟩,
  ⟨"KEY_ALT_L", 2, "\x1b\x6c", false⟩,
  ⟨"KEY_SHIFT_ALT_L", 2, "\x1b\x4c", false⟩,
  ⟨"KEY_CTRL_L", 1, "\x0c", false⟩,
  ⟨"KEY_ALT_CTRL_L", 2, "\x1b\x0c", false⟩,
  ⟨"KEY_CYRILLIC_DE", 2, "д", true⟩,
  ⟨"KEY_SHIFT_CYRILLIC_DE", 2, "Д", true⟩,
  ⟨"KEY_ALT_CYRILLIC_DE", 3, "\x1bд", false⟩,
  ⟨"KEY_SHIFT_ALT_CYRILLIC_DE", 3, "\x1bД", false⟩,
  ⟨"KEY_SEMICOLON", 1, ";", true⟩,
  ⟨"KEY_SHIFT_SEMICOLON_IS_COLON", 1, ":", true⟩,
  ⟨"KEY_ALT_SEMICOLON", 2, "\x1b\x3b", false⟩,
  ⟨"KEY_SHIFT_ALT_SEMICOLON", 2, "\x1b\x3a", false⟩,
  ⟨"KEY_CTRL_SEMICOLON", 1, "\x0c", false⟩,
  ⟨"KEY_ALT_CTRL_SEMICOLON", 2, "\x1b\x0c", false⟩,
  ⟨"KEY_CYRILLIC_ZHE", 2, "ж", true⟩,
  ⟨"KEY_SHIFT_CYRILLIC_ZHE", 2, "Ж", true⟩,
  ⟨"KEY_ALT_CYRILLIC_ZHE", 3, "\x1bж", false⟩,
  ⟨"KEY_SHIFT_ALT_CYRILLIC_ZHE", 3, "\x1bЖ", false⟩,
  ⟨"KEY_TICK", 1, "\x27", true⟩,
  ⟨"KEY_SHIFT_TICK_IS_QUOTATIONS", 1, "\"", true⟩,
  ⟨"KEY_ALT_TICK", 2, "\x1b\x27", false⟩,
  ⟨"KEY_SHIFT_ALT_TICK", 2, "\x1b\x22", false⟩,
  ⟨"KEY_CYRILLIC_E", 2, "э", true⟩,
  ⟨"KEY_SHIFT_CYRILLIC_E", 2, "Э", true⟩,
  ⟨"KEY_ALT_CYRILLIC_E", 3, "\x1bэ", false⟩,
  ⟨"KEY_SHIFT_ALT_CYRILLIC_E", 3, "\x1bЭ", false⟩,
  ⟨"KEY_Z", 1, "z", true⟩,
  ⟨"KEY_SHIFT_Z", 1, "Z", true⟩,
  ⟨"KEY_CYRILLIC_YA", 2, "я", true⟩,
  ⟨"KEY_SHIFT_CYRILLIC_YA", 2, "Я", true⟩,
  ⟨"KEY_ALT_CYRILLIC_YA", 3, "\x1bя", false⟩,
  ⟨"KEY_SHIFT_ALT_CYRILLIC_YA", 3, "\x1bЯ", false⟩,
  ⟨"KEY_X", 1, "x", true⟩,
  ⟨"KEY_SHIFT_X", 1, "X", true⟩,
  ⟨"KEY_ALT_X", 2, "\x1bx", false⟩,
  ⟨"KEY_SHIFT_ALT_X", 2, "\x1bX", false⟩,
  ⟨"KEY_CTRL_X", 1, "\x18", false⟩,
  ⟨"KEY_ALT_CTRL_X", 2, "\x1b\x18", false⟩,
  ⟨"KEY_CYRILLIC_CHE", 2, "ч", true⟩,
  ⟨"KEY_SHIFT_CYRILLIC_CHE", 2, "Ч", true⟩,
  ⟨"KEY_ALT_CYRILLIC_CHE", 3, "\x1bч", false⟩,
  ⟨"KEY_SHIFT_ALT_CYRILLIC_CHE", 3, "\x1bЧ", false⟩,
  ⟨"KEY_C", 1, "c", true⟩,
  ⟨"KEY_SHIFT_C", 1, "C", true⟩,
  ⟨"KEY_CYRILLIC_ES", 2, "с", true⟩,
  ⟨"KEY_SHIFT_CYRILLIC_ES", 2, "С", true⟩,
  ⟨"KEY_ALT_CYRILLIC_ES", 3, "\x1bс", false⟩,
  ⟨"KEY_SHIFT_ALT_CYRILLIC_ES", 3, "\x1bС", false⟩,
  ⟨"KEY_V", 1, "v", true⟩,
  ⟨"KEY_SHIFT_V", 1, "V", true⟩,
  ⟨"KEY_ALT_V", 2, "\x1bv", false⟩,
  ⟨"KEY_SHIFT_ALT_V", 2, "\x1bV", false⟩,
  ⟨"KEY_CTRL_V", 1, "\x16", false⟩,
  ⟨"KEY_ALT_CTRL_V", 2, "\x1b\x16", false⟩,
  ⟨"KEY_CYRILLIC_EM", 2, "м", true⟩,
  ⟨"KEY_SHIFT_CYRILLIC_EM", 2, "М", true⟩,
  ⟨"KEY_ALT_CYRILLIC_EM", 3, "\x1bм", false⟩,
  ⟨"KEY_SHIFT_ALT_CYRILLIC_EM", 3, "\x1bМ", false⟩,
  ⟨"KEY_B", 1, "b", true⟩,
  ⟨"KEY_SHIFT_B", 1, "B", true⟩,
  ⟨"KEY_ALT_B", 2, "\x1b\x62", false⟩,
  ⟨"KEY_SHIFT_ALT_B", 2, "\x1b\x42", false⟩,
  ⟨"KEY_CTRL_B", 1, "\x02", false⟩,
  ⟨"KEY_ALT_CTRL_B", 2, "\x1b\x02", false⟩,
  ⟨"KEY_CYRILLIC_I", 2, "и", true⟩,
  ⟨"KEY_SHIFT_CYRILLIC_I", 2, "И", true⟩,
  ⟨"KEY_ALT_CYRILLIC_I", 3, "\x1bи", false⟩,
  ⟨"KEY_SHIFT_ALT_CYRILLIC_I", 3, "\x1bИ", false⟩,
  ⟨"KEY_N", 1, "n", true⟩,
  ⟨"KEY_SHIFT_N", 1, "N", true⟩,
  ⟨"KEY_ALT_N", 2, "\x1b\x6e", false⟩,
  ⟨"KEY_SHIFT_ALT_N", 2, "\x1b\x4e", false⟩,
  ⟨"KEY_CTRL_N", 1, "\x0e", false⟩,
  ⟨"KEY_ALT_CTRL_N", 2, "\x1b\x0e", false⟩,
  ⟨"KEY_CYRILLIC_TE", 2, "т", true⟩,
  ⟨"KEY_SHIFT_CYRILLIC_TE", 2, "Т", true⟩,
  ⟨"KEY_ALT_CYRILLIC_TE", 3, "\x1bт", false⟩,
  ⟨"KEY_SHIFT_ALT_CYRILLIC_TE", 3, "\x1bТ", false⟩,
  ⟨"KEY_M", 1, "m", true⟩,
  ⟨"KEY_SHIFT_M", 1, "M", true⟩,
  ⟨"KEY_ALT_M", 2, "\x1b\x6d", false⟩,
  ⟨"KEY_SHIFT_ALT_M", 2, "\x1b\x4d", false⟩,
  ⟨"KEY_CYRILLIC_SOFTSIGN", 2, "ь", true⟩,
  ⟨"KEY_SHIFT_CYRILLIC_SOFTSIGN", 2, "Ь", true⟩,
  ⟨"KEY_ALT_CYRILLIC_SOFTSIGN", 3, "\x1bь", false⟩,
  ⟨"KEY_SHIFT_ALT_CYRILLIC_SOFTSIGN", 3, "\x1bЬ", false⟩,
  ⟨"KEY_COMMA", 1, "\x2c", true⟩,
  ⟨"KEY_SHIFT_COMMA_IS_LESS", 1, "<", true⟩,
  ⟨"KEY_ALT_COMMA", 2, "\x1b\x2c", false⟩,
  ⟨"KEY_SHIFT_ALT_COMMA", 2, "\x1b\x3c", false⟩,
  ⟨"KEY_CYRILLIC_BE", 2, "б", true⟩,
  ⟨"KEY_SHIFT_CYRILLIC_BE", 2, "Б", true⟩,
  ⟨"KEY_ALT_CYRILLIC_BE", 3, "\x1bб", false⟩,
  ⟨"KEY_SHIFT_ALT_CYRILLIC_BE", 3, "\x1bБ", false⟩,
  ⟨"KEY_DOT", 1, ".", true⟩,
  ⟨"KEY_SHIFT_DOT_IS_GREATER", 1, ">", true⟩,
  ⟨"KEY_ALT_DOT", 2, "\x1b\x2e", false⟩,
  ⟨"KEY_SHIFT_ALT_DOT", 2, "\x1b\x3e", false⟩,
  ⟨"KEY_CYRILLIC_YU", 2, "ю", true⟩,
  ⟨"KEY_SHIFT_CYRILLIC_YU", 2, "Ю", true⟩,
  ⟨"KEY_ALT_CYRILLIC_YU", 3, "\x1bю", false⟩,
  ⟨"KEY_SHIFT_ALT_CYRILLIC_YU", 3, "\x1bЮ", false⟩,
  ⟨"KEY_SLASH", 1, "/", true⟩,
  ⟨"KEY_SHIFT_SLASH_IS_QUESTION", 1, "?", true⟩,
  ⟨"KEY_ALT_SLASH", 2, "\x1b\x2f", false⟩,
  ⟨"KEY_SHIFT_ALT_SLASH", 2, "\x1b\x3d", false⟩,
  ⟨"KEY_SPACE", 1, "\x20", true⟩,
  ⟨"KEY_SHIFT_ALT_SPACE", 2, "\x1b\x20", false⟩]

/-- `KEY_MAP`, which puts out the diversion with the printable keys in front of the other one. -/
def keyMap : List KeyEntry :=
  keyEntries.filter (·.isPrintable) ++ keyEntries.filter (!·.isPrintable)

end Vjft.Term
