/-!
# Code points by property

Tables of the Unicode character database, version 17.0: the code points that have a property or are
of some general categories. A table is written as runs of consecutive code points.

## Main definitions

* `Ranges`, `Ranges.contains`: sets of code points
* `alphabeticRanges`, `numericRanges`, `decimalDigitRanges`: letters and digits
* `unprintableRanges`, `graphemeExtendRanges`: what is not shown as it is
* `casedRanges`, `caseIgnorableRanges`: what decides the form of a final sigma
-/

namespace Stencil.Text

/-- Runs of code points in increasing order, each with its first code point and its length. -/
abbrev Ranges := List (Nat × Nat)

/-- Whether one of the runs holds `n`. -/
def Ranges.contains : Ranges → Nat → Bool
  | [], _ => false
  | (first, length) :: rest, n =>
    if n < first then false else n < first + length || contains rest n

/-- Code points beyond ASCII that have the Unicode property Alphabetic. -/
def alphabeticRanges : Ranges :=
  [(0xAA, 1), (0xB5, 1), (0xBA, 1), (0xC0, 23), (0xD8, 31), (0xF8, 458), (0x2C6, 12), (0x2E0, 5),
  (0x2EC, 1), (0x2EE, 1), (0x345, 1), (0x363, 18), (0x376, 2), (0x37A, 4), (0x37F, 1), (0x386, 1),
  (0x388, 3), (0x38C, 1), (0x38E, 20), (0x3A3, 83), (0x3F7, 139), (0x48A, 166), (0x531, 38),
  (0x559, 1), (0x560, 41), (0x5B0, 14), (0x5BF, 1), (0x5C1, 2), (0x5C4, 2), (0x5C7, 1), (0x5D0, 27),
  (0x5EF, 4), (0x610, 11), (0x620, 56), (0x659, 7), (0x66E, 102), (0x6D5, 8), (0x6E1, 8),
  (0x6ED, 3), (0x6FA, 3), (0x6FF, 1), (0x710, 48), (0x74D, 101), (0x7CA, 33), (0x7F4, 2),
  (0x7FA, 1), (0x800, 24), (0x81A, 19), (0x840, 25), (0x860, 11), (0x870, 24), (0x889, 7),
  (0x897, 1), (0x8A0, 42), (0x8D4, 12), (0x8E3, 7), (0x8F0, 76), (0x93D, 16), (0x94E, 3),
  (0x955, 15), (0x971, 19), (0x985, 8), (0x98F, 2), (0x993, 22), (0x9AA, 7), (0x9B2, 1), (0x9B6, 4),
  (0x9BD, 8), (0x9C7, 2), (0x9CB, 2), (0x9CE, 1), (0x9D7, 1), (0x9DC, 2), (0x9DF, 5), (0x9F0, 2),
  (0x9FC, 1), (0xA01, 3), (0xA05, 6), (0xA0F, 2), (0xA13, 22), (0xA2A, 7), (0xA32, 2), (0xA35, 2),
  (0xA38, 2), (0xA3E, 5), (0xA47, 2), (0xA4B, 2), (0xA51, 1), (0xA59, 4), (0xA5E, 1), (0xA70, 6),
  (0xA81, 3), (0xA85, 9), (0xA8F, 3), (0xA93, 22), (0xAAA, 7), (0xAB2, 2), (0xAB5, 5), (0xABD, 9),
  (0xAC7, 3), (0xACB, 2), (0xAD0, 1), (0xAE0, 4), (0xAF9, 4), (0xB01, 3), (0xB05, 8), (0xB0F, 2),
  (0xB13, 22), (0xB2A, 7), (0xB32, 2), (0xB35, 5), (0xB3D, 8), (0xB47, 2), (0xB4B, 2), (0xB56, 2),
  (0xB5C, 2), (0xB5F, 5), (0xB71, 1), (0xB82, 2), (0xB85, 6), (0xB8E, 3), (0xB92, 4), (0xB99, 2),
  (0xB9C, 1), (0xB9E, 2), (0xBA3, 2), (0xBA8, 3), (0xBAE, 12), (0xBBE, 5), (0xBC6, 3), (0xBCA, 3),
  (0xBD0, 1), (0xBD7, 1), (0xC00, 13), (0xC0E, 3), (0xC12, 23), (0xC2A, 16), (0xC3D, 8), (0xC46, 3),
  (0xC4A, 3), (0xC55, 2), (0xC58, 3), (0xC5C, 2), (0xC60, 4), (0xC80, 4), (0xC85, 8), (0xC8E, 3),
  (0xC92, 23), (0xCAA, 10), (0xCB5, 5), (0xCBD, 8), (0xCC6, 3), (0xCCA, 3), (0xCD5, 2), (0xCDC, 3),
  (0xCE0, 4), (0xCF1, 3), (0xD00, 13), (0xD0E, 3), (0xD12, 41), (0xD3D, 8), (0xD46, 3), (0xD4A, 3),
  (0xD4E, 1), (0xD54, 4), (0xD5F, 5), (0xD7A, 6), (0xD81, 3), (0xD85, 18), (0xD9A, 24), (0xDB3, 9),
  (0xDBD, 1), (0xDC0, 7), (0xDCF, 6), (0xDD6, 1), (0xDD8, 8), (0xDF2, 2), (0xE01, 58), (0xE40, 7),
  (0xE4D, 1), (0xE81, 2), (0xE84, 1), (0xE86, 5), (0xE8C, 24), (0xEA5, 1), (0xEA7, 19), (0xEBB, 3),
  (0xEC0, 5), (0xEC6, 1), (0xECD, 1), (0xEDC, 4), (0xF00, 1), (0xF40, 8), (0xF49, 36), (0xF71, 19),
  (0xF88, 16), (0xF99, 36), (0x1000, 55), (0x1038, 1), (0x103B, 5), (0x1050, 64), (0x109A, 4),
  (0x10A0, 38), (0x10C7, 1), (0x10CD, 1), (0x10D0, 43), (0x10FC, 333), (0x124A, 4), (0x1250, 7),
  (0x1258, 1), (0x125A, 4), (0x1260, 41), (0x128A, 4), (0x1290, 33), (0x12B2, 4), (0x12B8, 7),
  (0x12C0, 1), (0x12C2, 4), (0x12C8, 15), (0x12D8, 57), (0x1312, 4), (0x1318, 67), (0x1380, 16),
  (0x13A0, 86), (0x13F8, 6), (0x1401, 620), (0x166F, 17), (0x1681, 26), (0x16A0, 75), (0x16EE, 11),
  (0x1700, 20), (0x171F, 21), (0x1740, 20), (0x1760, 13), (0x176E, 3), (0x1772, 2), (0x1780, 52),
  (0x17B6, 19), (0x17D7, 1), (0x17DC, 1), (0x1820, 89), (0x1880, 43), (0x18B0, 70), (0x1900, 31),
  (0x1920, 12), (0x1930, 9), (0x1950, 30), (0x1970, 5), (0x1980, 44), (0x19B0, 26), (0x1A00, 28),
  (0x1A20, 63), (0x1A61, 20), (0x1AA7, 1), (0x1ABF, 2), (0x1ACC, 3), (0x1B00, 52), (0x1B35, 15),
  (0x1B45, 8), (0x1B80, 42), (0x1BAC, 4), (0x1BBA, 44), (0x1BE7, 11), (0x1C00, 55), (0x1C4D, 3),
  (0x1C5A, 36), (0x1C80, 11), (0x1C90, 43), (0x1CBD, 3), (0x1CE9, 4), (0x1CEE, 6), (0x1CF5, 2),
  (0x1CFA, 1), (0x1D00, 192), (0x1DD3, 34), (0x1E00, 278), (0x1F18, 6), (0x1F20, 38), (0x1F48, 6),
  (0x1F50, 8), (0x1F59, 1), (0x1F5B, 1), (0x1F5D, 1), (0x1F5F, 31), (0x1F80, 53), (0x1FB6, 7),
  (0x1FBE, 1), (0x1FC2, 3), (0x1FC6, 7), (0x1FD0, 4), (0x1FD6, 6), (0x1FE0, 13), (0x1FF2, 3),
  (0x1FF6, 7), (0x2071, 1), (0x207F, 1), (0x2090, 13), (0x2102, 1), (0x2107, 1), (0x210A, 10),
  (0x2115, 1), (0x2119, 5), (0x2124, 1), (0x2126, 1), (0x2128, 1), (0x212A, 4), (0x212F, 11),
  (0x213C, 4), (0x2145, 5), (0x214E, 1), (0x2160, 41), (0x24B6, 52), (0x2C00, 229), (0x2CEB, 4),
  (0x2CF2, 2), (0x2D00, 38), (0x2D27, 1), (0x2D2D, 1), (0x2D30, 56), (0x2D6F, 1), (0x2D80, 23),
  (0x2DA0, 7), (0x2DA8, 7), (0x2DB0, 7), (0x2DB8, 7), (0x2DC0, 7), (0x2DC8, 7), (0x2DD0, 7),
  (0x2DD8, 7), (0x2DE0, 32), (0x2E2F, 1), (0x3005, 3), (0x3021, 9), (0x3031, 5), (0x3038, 5),
  (0x3041, 86), (0x309D, 3), (0x30A1, 90), (0x30FC, 4), (0x3105, 43), (0x3131, 94), (0x31A0, 32),
  (0x31F0, 16), (0x3400, 6592), (0x4E00, 22157), (0xA4D0, 46), (0xA500, 269), (0xA610, 16),
  (0xA62A, 2), (0xA640, 47), (0xA674, 8), (0xA67F, 113), (0xA717, 9), (0xA722, 103), (0xA78B, 82),
  (0xA7F1, 21), (0xA807, 33), (0xA840, 52), (0xA880, 68), (0xA8C5, 1), (0xA8F2, 6), (0xA8FB, 1),
  (0xA8FD, 3), (0xA90A, 33), (0xA930, 35), (0xA960, 29), (0xA980, 51), (0xA9B4, 12), (0xA9CF, 1),
  (0xA9E0, 16), (0xA9FA, 5), (0xAA00, 55), (0xAA40, 14), (0xAA60, 23), (0xAA7A, 69), (0xAAC0, 1),
  (0xAAC2, 1), (0xAADB, 3), (0xAAE0, 16), (0xAAF2, 4), (0xAB01, 6), (0xAB09, 6), (0xAB11, 6),
  (0xAB20, 7), (0xAB28, 7), (0xAB30, 43), (0xAB5C, 14), (0xAB70, 123), (0xAC00, 11172),
  (0xD7B0, 23), (0xD7CB, 49), (0xF900, 366), (0xFA70, 106), (0xFB00, 7), (0xFB13, 5), (0xFB1D, 12),
  (0xFB2A, 13), (0xFB38, 5), (0xFB3E, 1), (0xFB40, 2), (0xFB43, 2), (0xFB46, 108), (0xFBD3, 363),
  (0xFD50, 64), (0xFD92, 54), (0xFDF0, 12), (0xFE70, 5), (0xFE76, 135), (0xFF21, 26), (0xFF41, 26),
  (0xFF66, 89), (0xFFC2, 6), (0xFFCA, 6), (0xFFD2, 6), (0xFFDA, 3), (0x10000, 12), (0x1000D, 26),
  (0x10028, 19), (0x1003C, 2), (0x1003F, 15), (0x10050, 14), (0x10080, 123), (0x10140, 53),
  (0x10280, 29), (0x102A0, 49), (0x10300, 32), (0x1032D, 30), (0x10350, 43), (0x10380, 30),
  (0x103A0, 36), (0x103C8, 8), (0x103D1, 5), (0x10400, 158), (0x104B0, 36), (0x104D8, 36),
  (0x10500, 40), (0x10530, 52), (0x10570, 11), (0x1057C, 15), (0x1058C, 7), (0x10594, 2),
  (0x10597, 11), (0x105A3, 15), (0x105B3, 7), (0x105BB, 2), (0x105C0, 52), (0x10600, 311),
  (0x10740, 22), (0x10760, 8), (0x10780, 6), (0x10787, 42), (0x107B2, 9), (0x10800, 6),
  (0x10808, 1), (0x1080A, 44), (0x10837, 2), (0x1083C, 1), (0x1083F, 23), (0x10860, 23),
  (0x10880, 31), (0x108E0, 19), (0x108F4, 2), (0x10900, 22), (0x10920, 26), (0x10940, 26),
  (0x10980, 56), (0x109BE, 2), (0x10A00, 4), (0x10A05, 2), (0x10A0C, 8), (0x10A15, 3),
  (0x10A19, 29), (0x10A60, 29), (0x10A80, 29), (0x10AC0, 8), (0x10AC9, 28), (0x10B00, 54),
  (0x10B40, 22), (0x10B60, 19), (0x10B80, 18), (0x10C00, 73), (0x10C80, 51), (0x10CC0, 51),
  (0x10D00, 40), (0x10D4A, 28), (0x10D69, 1), (0x10D6F, 23), (0x10E80, 42), (0x10EAB, 2),
  (0x10EB0, 2), (0x10EC2, 6), (0x10EFA, 3), (0x10F00, 29), (0x10F27, 1), (0x10F30, 22),
  (0x10F70, 18), (0x10FB0, 21), (0x10FE0, 23), (0x11000, 70), (0x11071, 5), (0x11080, 57),
  (0x110C2, 1), (0x110D0, 25), (0x11100, 51), (0x11144, 4), (0x11150, 35), (0x11176, 1),
  (0x11180, 64), (0x111C1, 4), (0x111CE, 2), (0x111DA, 1), (0x111DC, 1), (0x11200, 18),
  (0x11213, 34), (0x11237, 1), (0x1123E, 4), (0x11280, 7), (0x11288, 1), (0x1128A, 4),
  (0x1128F, 15), (0x1129F, 10), (0x112B0, 57), (0x11300, 4), (0x11305, 8), (0x1130F, 2),
  (0x11313, 22), (0x1132A, 7), (0x11332, 2), (0x11335, 5), (0x1133D, 8), (0x11347, 2), (0x1134B, 2),
  (0x11350, 1), (0x11357, 1), (0x1135D, 7), (0x11380, 10), (0x1138B, 1), (0x1138E, 1),
  (0x11390, 38), (0x113B7, 10), (0x113C2, 1), (0x113C5, 1), (0x113C7, 4), (0x113CC, 2),
  (0x113D1, 1), (0x113D3, 1), (0x11400, 66), (0x11443, 3), (0x11447, 4), (0x1145F, 3),
  (0x11480, 66), (0x114C4, 2), (0x114C7, 1), (0x11580, 54), (0x115B8, 7), (0x115D8, 6),
  (0x11600, 63), (0x11640, 1), (0x11644, 1), (0x11680, 54), (0x116B8, 1), (0x11700, 27),
  (0x1171D, 14), (0x11740, 7), (0x11800, 57), (0x118A0, 64), (0x118FF, 8), (0x11909, 1),
  (0x1190C, 8), (0x11915, 2), (0x11918, 30), (0x11937, 2), (0x1193B, 2), (0x1193F, 4), (0x119A0, 8),
  (0x119AA, 46), (0x119DA, 6), (0x119E1, 1), (0x119E3, 2), (0x11A00, 51), (0x11A35, 10),
  (0x11A50, 72), (0x11A9D, 1), (0x11AB0, 73), (0x11B60, 8), (0x11BC0, 33), (0x11C00, 9),
  (0x11C0A, 45), (0x11C38, 7), (0x11C40, 1), (0x11C72, 30), (0x11C92, 22), (0x11CA9, 14),
  (0x11D00, 7), (0x11D08, 2), (0x11D0B, 44), (0x11D3A, 1), (0x11D3C, 2), (0x11D3F, 3), (0x11D43, 1),
  (0x11D46, 2), (0x11D60, 6), (0x11D67, 2), (0x11D6A, 37), (0x11D90, 2), (0x11D93, 4), (0x11D98, 1),
  (0x11DB0, 44), (0x11EE0, 23), (0x11F00, 17), (0x11F12, 41), (0x11F3E, 3), (0x11FB0, 1),
  (0x12000, 922), (0x12400, 111), (0x12480, 196), (0x12F90, 97), (0x13000, 1072), (0x13441, 6),
  (0x13460, 3995), (0x14400, 583), (0x16100, 47), (0x16800, 569), (0x16A40, 31), (0x16A70, 79),
  (0x16AD0, 30), (0x16B00, 48), (0x16B40, 4), (0x16B63, 21), (0x16B7D, 19), (0x16D40, 45),
  (0x16E40, 64), (0x16EA0, 25), (0x16EBB, 25), (0x16F00, 75), (0x16F4F, 57), (0x16F8F, 17),
  (0x16FE0, 2), (0x16FE3, 1), (0x16FF0, 7), (0x17000, 7382), (0x18CFF, 32), (0x18D80, 115),
  (0x1AFF0, 4), (0x1AFF5, 7), (0x1AFFD, 2), (0x1B000, 291), (0x1B132, 1), (0x1B150, 3),
  (0x1B155, 1), (0x1B164, 4), (0x1B170, 396), (0x1BC00, 107), (0x1BC70, 13), (0x1BC80, 9),
  (0x1BC90, 10), (0x1BC9E, 1), (0x1D400, 85), (0x1D456, 71), (0x1D49E, 2), (0x1D4A2, 1),
  (0x1D4A5, 2), (0x1D4A9, 4), (0x1D4AE, 12), (0x1D4BB, 1), (0x1D4BD, 7), (0x1D4C5, 65),
  (0x1D507, 4), (0x1D50D, 8), (0x1D516, 7), (0x1D51E, 28), (0x1D53B, 4), (0x1D540, 5), (0x1D546, 1),
  (0x1D54A, 7), (0x1D552, 340), (0x1D6A8, 25), (0x1D6C2, 25), (0x1D6DC, 31), (0x1D6FC, 25),
  (0x1D716, 31), (0x1D736, 25), (0x1D750, 31), (0x1D770, 25), (0x1D78A, 31), (0x1D7AA, 25),
  (0x1D7C4, 8), (0x1DF00, 31), (0x1DF25, 6), (0x1E000, 7), (0x1E008, 17), (0x1E01B, 7),
  (0x1E023, 2), (0x1E026, 5), (0x1E030, 62), (0x1E08F, 1), (0x1E100, 45), (0x1E137, 7),
  (0x1E14E, 1), (0x1E290, 30), (0x1E2C0, 44), (0x1E4D0, 28), (0x1E5D0, 30), (0x1E5F0, 1),
  (0x1E6C0, 31), (0x1E6E0, 22), (0x1E6FE, 2), (0x1E7E0, 7), (0x1E7E8, 4), (0x1E7ED, 2),
  (0x1E7F0, 15), (0x1E800, 197), (0x1E900, 68), (0x1E947, 1), (0x1E94B, 1), (0x1EE00, 4),
  (0x1EE05, 27), (0x1EE21, 2), (0x1EE24, 1), (0x1EE27, 1), (0x1EE29, 10), (0x1EE34, 4),
  (0x1EE39, 1), (0x1EE3B, 1), (0x1EE42, 1), (0x1EE47, 1), (0x1EE49, 1), (0x1EE4B, 1), (0x1EE4D, 3),
  (0x1EE51, 2), (0x1EE54, 1), (0x1EE57, 1), (0x1EE59, 1), (0x1EE5B, 1), (0x1EE5D, 1), (0x1EE5F, 1),
  (0x1EE61, 2), (0x1EE64, 1), (0x1EE67, 4), (0x1EE6C, 7), (0x1EE74, 4), (0x1EE79, 4), (0x1EE7E, 1),
  (0x1EE80, 10), (0x1EE8B, 17), (0x1EEA1, 3), (0x1EEA5, 5), (0x1EEAB, 17), (0x1F130, 26),
  (0x1F150, 26), (0x1F170, 26), (0x20000, 42720), (0x2A700, 4382), (0x2B820, 5774), (0x2CEB0, 7473),
  (0x2EBF0, 622), (0x2F800, 542), (0x30000, 4939), (0x31350, 8490)]

/-- Code points beyond ASCII in the general categories Nd, Nl and No. -/
def numericRanges : Ranges :=
  [(0xB2, 2), (0xB9, 1), (0xBC, 3), (0x660, 10), (0x6F0, 10), (0x7C0, 10), (0x966, 10), (0x9E6, 10),
  (0x9F4, 6), (0xA66, 10), (0xAE6, 10), (0xB66, 10), (0xB72, 6), (0xBE6, 13), (0xC66, 10),
  (0xC78, 7), (0xCE6, 10), (0xD58, 7), (0xD66, 19), (0xDE6, 10), (0xE50, 10), (0xED0, 10),
  (0xF20, 20), (0x1040, 10), (0x1090, 10), (0x1369, 20), (0x16EE, 3), (0x17E0, 10), (0x17F0, 10),
  (0x1810, 10), (0x1946, 10), (0x19D0, 11), (0x1A80, 10), (0x1A90, 10), (0x1B50, 10), (0x1BB0, 10),
  (0x1C40, 10), (0x1C50, 10), (0x2070, 1), (0x2074, 6), (0x2080, 10), (0x2150, 51), (0x2185, 5),
  (0x2460, 60), (0x24EA, 22), (0x2776, 30), (0x2CFD, 1), (0x3007, 1), (0x3021, 9), (0x3038, 3),
  (0x3192, 4), (0x3220, 10), (0x3248, 8), (0x3251, 15), (0x3280, 10), (0x32B1, 15), (0xA620, 10),
  (0xA6E6, 10), (0xA830, 6), (0xA8D0, 10), (0xA900, 10), (0xA9D0, 10), (0xA9F0, 10), (0xAA50, 10),
  (0xABF0, 10), (0xFF10, 10), (0x10107, 45), (0x10140, 57), (0x1018A, 2), (0x102E1, 27),
  (0x10320, 4), (0x10341, 1), (0x1034A, 1), (0x103D1, 5), (0x104A0, 10), (0x10858, 8), (0x10879, 7),
  (0x108A7, 9), (0x108FB, 5), (0x10916, 6), (0x109BC, 2), (0x109C0, 16), (0x109D2, 46),
  (0x10A40, 9), (0x10A7D, 2), (0x10A9D, 3), (0x10AEB, 5), (0x10B58, 8), (0x10B78, 8), (0x10BA9, 7),
  (0x10CFA, 6), (0x10D30, 10), (0x10D40, 10), (0x10E60, 31), (0x10F1D, 10), (0x10F51, 4),
  (0x10FC5, 7), (0x11052, 30), (0x110F0, 10), (0x11136, 10), (0x111D0, 10), (0x111E1, 20),
  (0x112F0, 10), (0x11450, 10), (0x114D0, 10), (0x11650, 10), (0x116C0, 10), (0x116D0, 20),
  (0x11730, 12), (0x118E0, 19), (0x11950, 10), (0x11BF0, 10), (0x11C50, 29), (0x11D50, 10),
  (0x11DA0, 10), (0x11DE0, 10), (0x11F50, 10), (0x11FC0, 21), (0x12400, 111), (0x16130, 10),
  (0x16A60, 10), (0x16AC0, 10), (0x16B50, 10), (0x16B5B, 7), (0x16D70, 10), (0x16E80, 23),
  (0x16FF4, 3), (0x1CCF0, 10), (0x1D2C0, 20), (0x1D2E0, 20), (0x1D360, 25), (0x1D7CE, 50),
  (0x1E140, 10), (0x1E2F0, 10), (0x1E4F0, 10), (0x1E5F1, 10), (0x1E8C7, 9), (0x1E950, 10),
  (0x1EC71, 59), (0x1ECAD, 3), (0x1ECB1, 4), (0x1ED01, 45), (0x1ED2F, 15), (0x1F100, 13),
  (0x1FBF0, 10)]

/-- Code points beyond ASCII in the general category Nd. -/
def decimalDigitRanges : Ranges :=
  [(0x660, 10), (0x6F0, 10), (0x7C0, 10), (0x966, 10), (0x9E6, 10), (0xA66, 10), (0xAE6, 10),
  (0xB66, 10), (0xBE6, 10), (0xC66, 10), (0xCE6, 10), (0xD66, 10), (0xDE6, 10), (0xE50, 10),
  (0xED0, 10), (0xF20, 10), (0x1040, 10), (0x1090, 10), (0x17E0, 10), (0x1810, 10), (0x1946, 10),
  (0x19D0, 10), (0x1A80, 10), (0x1A90, 10), (0x1B50, 10), (0x1BB0, 10), (0x1C40, 10), (0x1C50, 10),
  (0xA620, 10), (0xA8D0, 10), (0xA900, 10), (0xA9D0, 10), (0xA9F0, 10), (0xAA50, 10), (0xABF0, 10),
  (0xFF10, 10), (0x104A0, 10), (0x10D30, 10), (0x10D40, 10), (0x11066, 10), (0x110F0, 10),
  (0x11136, 10), (0x111D0, 10), (0x112F0, 10), (0x11450, 10), (0x114D0, 10), (0x11650, 10),
  (0x116C0, 10), (0x116D0, 20), (0x11730, 10), (0x118E0, 10), (0x11950, 10), (0x11BF0, 10),
  (0x11C50, 10), (0x11D50, 10), (0x11DA0, 10), (0x11DE0, 10), (0x11F50, 10), (0x16130, 10),
  (0x16A60, 10), (0x16AC0, 10), (0x16B50, 10), (0x16D70, 10), (0x1CCF0, 10), (0x1D7CE, 50),
  (0x1E140, 10), (0x1E2F0, 10), (0x1E4F0, 10), (0x1E5F1, 10), (0x1E950, 10), (0x1FBF0, 10)]

/-- Code points beyond ASCII that do not print: controls, format characters, surrogates, private use,
unassigned code points, separators, blanks, and fillers that are ignored by default. -/
def unprintableRanges : Ranges :=
  [(0x80, 33), (0xAD, 1), (0x34F, 1), (0x378, 2), (0x380, 4), (0x38B, 1), (0x38D, 1), (0x3A2, 1),
  (0x530, 1), (0x557, 2), (0x58B, 2), (0x590, 1), (0x5C8, 8), (0x5EB, 4), (0x5F5, 17), (0x61C, 1),
  (0x6DD, 1), (0x70E, 2), (0x74B, 2), (0x7B2, 14), (0x7FB, 2), (0x82E, 2), (0x83F, 1), (0x85C, 2),
  (0x85F, 1), (0x86B, 5), (0x890, 7), (0x8E2, 1), (0x984, 1), (0x98D, 2), (0x991, 2), (0x9A9, 1),
  (0x9B1, 1), (0x9B3, 3), (0x9BA, 2), (0x9C5, 2), (0x9C9, 2), (0x9CF, 8), (0x9D8, 4), (0x9DE, 1),
  (0x9E4, 2), (0x9FF, 2), (0xA04, 1), (0xA0B, 4), (0xA11, 2), (0xA29, 1), (0xA31, 1), (0xA34, 1),
  (0xA37, 1), (0xA3A, 2), (0xA3D, 1), (0xA43, 4), (0xA49, 2), (0xA4E, 3), (0xA52, 7), (0xA5D, 1),
  (0xA5F, 7), (0xA77, 10), (0xA84, 1), (0xA8E, 1), (0xA92, 1), (0xAA9, 1), (0xAB1, 1), (0xAB4, 1),
  (0xABA, 2), (0xAC6, 1), (0xACA, 1), (0xACE, 2), (0xAD1, 15), (0xAE4, 2), (0xAF2, 7), (0xB00, 1),
  (0xB04, 1), (0xB0D, 2), (0xB11, 2), (0xB29, 1), (0xB31, 1), (0xB34, 1), (0xB3A, 2), (0xB45, 2),
  (0xB49, 2), (0xB4E, 7), (0xB58, 4), (0xB5E, 1), (0xB64, 2), (0xB78, 10), (0xB84, 1), (0xB8B, 3),
  (0xB91, 1), (0xB96, 3), (0xB9B, 1), (0xB9D, 1), (0xBA0, 3), (0xBA5, 3), (0xBAB, 3), (0xBBA, 4),
  (0xBC3, 3), (0xBC9, 1), (0xBCE, 2), (0xBD1, 6), (0xBD8, 14), (0xBFB, 5), (0xC0D, 1), (0xC11, 1),
  (0xC29, 1), (0xC3A, 2), (0xC45, 1), (0xC49, 1), (0xC4E, 7), (0xC57, 1), (0xC5B, 1), (0xC5E, 2),
  (0xC64, 2), (0xC70, 7), (0xC8D, 1), (0xC91, 1), (0xCA9, 1), (0xCB4, 1), (0xCBA, 2), (0xCC5, 1),
  (0xCC9, 1), (0xCCE, 7), (0xCD7, 5), (0xCDF, 1), (0xCE4, 2), (0xCF0, 1), (0xCF4, 12), (0xD0D, 1),
  (0xD11, 1), (0xD45, 1), (0xD49, 1), (0xD50, 4), (0xD64, 2), (0xD80, 1), (0xD84, 1), (0xD97, 3),
  (0xDB2, 1), (0xDBC, 1), (0xDBE, 2), (0xDC7, 3), (0xDCB, 4), (0xDD5, 1), (0xDD7, 1), (0xDE0, 6),
  (0xDF0, 2), (0xDF5, 12), (0xE3B, 4), (0xE5C, 37), (0xE83, 1), (0xE85, 1), (0xE8B, 1), (0xEA4, 1),
  (0xEA6, 1), (0xEBE, 2), (0xEC5, 1), (0xEC7, 1), (0xECF, 1), (0xEDA, 2), (0xEE0, 32), (0xF48, 1),
  (0xF6D, 4), (0xF98, 1), (0xFBD, 1), (0xFCD, 1), (0xFDB, 37), (0x10C6, 1), (0x10C8, 5),
  (0x10CE, 2), (0x115F, 2), (0x1249, 1), (0x124E, 2), (0x1257, 1), (0x1259, 1), (0x125E, 2),
  (0x1289, 1), (0x128E, 2), (0x12B1, 1), (0x12B6, 2), (0x12BF, 1), (0x12C1, 1), (0x12C6, 2),
  (0x12D7, 1), (0x1311, 1), (0x1316, 2), (0x135B, 2), (0x137D, 3), (0x139A, 6), (0x13F6, 2),
  (0x13FE, 2), (0x1680, 1), (0x169D, 3), (0x16F9, 7), (0x1716, 9), (0x1737, 9), (0x1754, 12),
  (0x176D, 1), (0x1771, 1), (0x1774, 12), (0x17B4, 2), (0x17DE, 2), (0x17EA, 6), (0x17FA, 6),
  (0x180B, 5), (0x181A, 6), (0x1879, 7), (0x18AB, 5), (0x18F6, 10), (0x191F, 1), (0x192C, 4),
  (0x193C, 4), (0x1941, 3), (0x196E, 2), (0x1975, 11), (0x19AC, 4), (0x19CA, 6), (0x19DB, 3),
  (0x1A1C, 2), (0x1A5F, 1), (0x1A7D, 2), (0x1A8A, 6), (0x1A9A, 6), (0x1AAE, 2), (0x1ADE, 2),
  (0x1AEC, 20), (0x1B4D, 1), (0x1BF4, 8), (0x1C38, 3), (0x1C4A, 3), (0x1C8B, 5), (0x1CBB, 2),
  (0x1CC8, 8), (0x1CFB, 5), (0x1F16, 2), (0x1F1E, 2), (0x1F46, 2), (0x1F4E, 2), (0x1F58, 1),
  (0x1F5A, 1), (0x1F5C, 1), (0x1F5E, 1), (0x1F7E, 2), (0x1FB5, 1), (0x1FC5, 1), (0x1FD4, 2),
  (0x1FDC, 1), (0x1FF0, 2), (0x1FF5, 1), (0x1FFF, 17), (0x2028, 8), (0x205F, 17), (0x2072, 2),
  (0x208F, 1), (0x209D, 3), (0x20C2, 14), (0x20F1, 15), (0x218C, 4), (0x242A, 22), (0x244B, 21),
  (0x2B74, 2), (0x2CF4, 5), (0x2D26, 1), (0x2D28, 5), (0x2D2E, 2), (0x2D68, 7), (0x2D71, 14),
  (0x2D97, 9), (0x2DA7, 1), (0x2DAF, 1), (0x2DB7, 1), (0x2DBF, 1), (0x2DC7, 1), (0x2DCF, 1),
  (0x2DD7, 1), (0x2DDF, 1), (0x2E5E, 34), (0x2E9A, 1), (0x2EF4, 12), (0x2FD6, 26), (0x3000, 1),
  (0x3040, 1), (0x3097, 2), (0x3100, 5), (0x3130, 1), (0x3164, 1), (0x318F, 1), (0x31E6, 9),
  (0x321F, 1), (0xA48D, 3), (0xA4C7, 9), (0xA62C, 20), (0xA6F8, 8), (0xA7DD, 20), (0xA82D, 3),
  (0xA83A, 6), (0xA878, 8), (0xA8C6, 8), (0xA8DA, 6), (0xA954, 11), (0xA97D, 3), (0xA9CE, 1),
  (0xA9DA, 4), (0xA9FF, 1), (0xAA37, 9), (0xAA4E, 2), (0xAA5A, 2), (0xAAC3, 24), (0xAAF7, 10),
  (0xAB07, 2), (0xAB0F, 2), (0xAB17, 9), (0xAB27, 1), (0xAB2F, 1), (0xAB6C, 4), (0xABEE, 2),
  (0xABFA, 6), (0xD7A4, 12), (0xD7C7, 4), (0xD7FC, 8452), (0xFA6E, 2), (0xFADA, 38), (0xFB07, 12),
  (0xFB18, 5), (0xFB37, 1), (0xFB3D, 1), (0xFB3F, 1), (0xFB42, 1), (0xFB45, 1), (0xFDD0, 32),
  (0xFE00, 16), (0xFE1A, 6), (0xFE53, 1), (0xFE67, 1), (0xFE6C, 4), (0xFE75, 1), (0xFEFD, 4),
  (0xFFA0, 1), (0xFFBF, 3), (0xFFC8, 2), (0xFFD0, 2), (0xFFD8, 2), (0xFFDD, 3), (0xFFE7, 1),
  (0xFFEF, 13), (0xFFFE, 2), (0x1000C, 1), (0x10027, 1), (0x1003B, 1), (0x1003E, 1), (0x1004E, 2),
  (0x1005E, 34), (0x100FB, 5), (0x10103, 4), (0x10134, 3), (0x1018F, 1), (0x1019D, 3),
  (0x101A1, 47), (0x101FE, 130), (0x1029D, 3), (0x102D1, 15), (0x102FC, 4), (0x10324, 9),
  (0x1034B, 5), (0x1037B, 5), (0x1039E, 1), (0x103C4, 4), (0x103D6, 42), (0x1049E, 2), (0x104AA, 6),
  (0x104D4, 4), (0x104FC, 4), (0x10528, 8), (0x10564, 11), (0x1057B, 1), (0x1058B, 1), (0x10593, 1),
  (0x10596, 1), (0x105A2, 1), (0x105B2, 1), (0x105BA, 1), (0x105BD, 3), (0x105F4, 12), (0x10737, 9),
  (0x10756, 10), (0x10768, 24), (0x10786, 1), (0x107B1, 1), (0x107BB, 69), (0x10806, 2),
  (0x10809, 1), (0x10836, 1), (0x10839, 3), (0x1083D, 2), (0x10856, 1), (0x1089F, 8), (0x108B0, 48),
  (0x108F3, 1), (0x108F6, 5), (0x1091C, 3), (0x1093A, 5), (0x1095A, 38), (0x109B8, 4), (0x109D0, 2),
  (0x10A04, 1), (0x10A07, 5), (0x10A14, 1), (0x10A18, 1), (0x10A36, 2), (0x10A3B, 4), (0x10A49, 7),
  (0x10A59, 7), (0x10AA0, 32), (0x10AE7, 4), (0x10AF7, 9), (0x10B36, 3), (0x10B56, 2), (0x10B73, 5),
  (0x10B92, 7), (0x10B9D, 12), (0x10BB0, 80), (0x10C49, 55), (0x10CB3, 13), (0x10CF3, 7),
  (0x10D28, 8), (0x10D3A, 6), (0x10D66, 3), (0x10D86, 8), (0x10D90, 208), (0x10E7F, 1),
  (0x10EAA, 1), (0x10EAE, 2), (0x10EB2, 16), (0x10EC8, 8), (0x10ED9, 33), (0x10F28, 8),
  (0x10F5A, 22), (0x10F8A, 38), (0x10FCC, 20), (0x10FF7, 9), (0x1104E, 4), (0x11076, 9),
  (0x110BD, 1), (0x110C3, 13), (0x110E9, 7), (0x110FA, 6), (0x11135, 1), (0x11148, 8), (0x11177, 9),
  (0x111E0, 1), (0x111F5, 11), (0x11212, 1), (0x11242, 62), (0x11287, 1), (0x11289, 1),
  (0x1128E, 1), (0x1129E, 1), (0x112AA, 6), (0x112EB, 5), (0x112FA, 6), (0x11304, 1), (0x1130D, 2),
  (0x11311, 2), (0x11329, 1), (0x11331, 1), (0x11334, 1), (0x1133A, 1), (0x11345, 2), (0x11349, 2),
  (0x1134E, 2), (0x11351, 6), (0x11358, 5), (0x11364, 2), (0x1136D, 3), (0x11375, 11), (0x1138A, 1),
  (0x1138C, 2), (0x1138F, 1), (0x113B6, 1), (0x113C1, 1), (0x113C3, 2), (0x113C6, 1), (0x113CB, 1),
  (0x113D6, 1), (0x113D9, 8), (0x113E3, 29), (0x1145C, 1), (0x11462, 30), (0x114C8, 8),
  (0x114DA, 166), (0x115B6, 2), (0x115DE, 34), (0x11645, 11), (0x1165A, 6), (0x1166D, 19),
  (0x116BA, 6), (0x116CA, 6), (0x116E4, 28), (0x1171B, 2), (0x1172C, 4), (0x11747, 185),
  (0x1183C, 100), (0x118F3, 12), (0x11907, 2), (0x1190A, 2), (0x11914, 1), (0x11917, 1),
  (0x11936, 1), (0x11939, 2), (0x11947, 9), (0x1195A, 70), (0x119A8, 2), (0x119D8, 2),
  (0x119E5, 27), (0x11A48, 8), (0x11AA3, 13), (0x11AF9, 7), (0x11B0A, 86), (0x11B68, 88),
  (0x11BE2, 14), (0x11BFA, 6), (0x11C09, 1), (0x11C37, 1), (0x11C46, 10), (0x11C6D, 3),
  (0x11C90, 2), (0x11CA8, 1), (0x11CB7, 73), (0x11D07, 1), (0x11D0A, 1), (0x11D37, 3), (0x11D3B, 1),
  (0x11D3E, 1), (0x11D48, 8), (0x11D5A, 6), (0x11D66, 1), (0x11D69, 1), (0x11D8F, 1), (0x11D92, 1),
  (0x11D99, 7), (0x11DAA, 6), (0x11DDC, 4), (0x11DEA, 246), (0x11EF9, 7), (0x11F11, 1),
  (0x11F3B, 3), (0x11F5B, 85), (0x11FB1, 15), (0x11FF2, 13), (0x1239A, 102), (0x1246F, 1),
  (0x12475, 11), (0x12544, 2636), (0x12FF3, 13), (0x13430, 16), (0x13456, 10), (0x143FB, 5),
  (0x14647, 6841), (0x1613A, 1734), (0x16A39, 7), (0x16A5F, 1), (0x16A6A, 4), (0x16ABF, 1),
  (0x16ACA, 6), (0x16AEE, 2), (0x16AF6, 10), (0x16B46, 10), (0x16B5A, 1), (0x16B62, 1),
  (0x16B78, 5), (0x16B90, 432), (0x16D7A, 198), (0x16E9B, 5), (0x16EB9, 2), (0x16ED4, 44),
  (0x16F4B, 4), (0x16F88, 7), (0x16FA0, 64), (0x16FE5, 11), (0x16FF7, 9), (0x18CD6, 41),
  (0x18D1F, 97), (0x18DF3, 8701), (0x1AFF4, 1), (0x1AFFC, 1), (0x1AFFF, 1), (0x1B123, 15),
  (0x1B133, 29), (0x1B153, 2), (0x1B156, 14), (0x1B168, 8), (0x1B2FC, 2308), (0x1BC6B, 5),
  (0x1BC7D, 3), (0x1BC89, 7), (0x1BC9A, 2), (0x1BCA0, 3936), (0x1CCFD, 3), (0x1CEB4, 6),
  (0x1CED1, 15), (0x1CEF1, 15), (0x1CF2E, 2), (0x1CF47, 9), (0x1CFC4, 60), (0x1D0F6, 10),
  (0x1D127, 2), (0x1D173, 8), (0x1D1EB, 21), (0x1D246, 122), (0x1D2D4, 12), (0x1D2F4, 12),
  (0x1D357, 9), (0x1D379, 135), (0x1D455, 1), (0x1D49D, 1), (0x1D4A0, 2), (0x1D4A3, 2),
  (0x1D4A7, 2), (0x1D4AD, 1), (0x1D4BA, 1), (0x1D4BC, 1), (0x1D4C4, 1), (0x1D506, 1), (0x1D50B, 2),
  (0x1D515, 1), (0x1D51D, 1), (0x1D53A, 1), (0x1D53F, 1), (0x1D545, 1), (0x1D547, 3), (0x1D551, 1),
  (0x1D6A6, 2), (0x1D7CC, 2), (0x1DA8C, 15), (0x1DAA0, 1), (0x1DAB0, 1104), (0x1DF1F, 6),
  (0x1DF2B, 213), (0x1E007, 1), (0x1E019, 2), (0x1E022, 1), (0x1E025, 1), (0x1E02B, 5),
  (0x1E06E, 33), (0x1E090, 112), (0x1E12D, 3), (0x1E13E, 2), (0x1E14A, 4), (0x1E150, 320),
  (0x1E2AF, 17), (0x1E2FA, 5), (0x1E300, 464), (0x1E4FA, 214), (0x1E5FB, 4), (0x1E600, 192),
  (0x1E6DF, 1), (0x1E6F6, 8), (0x1E700, 224), (0x1E7E7, 1), (0x1E7EC, 1), (0x1E7EF, 1),
  (0x1E7FF, 1), (0x1E8C5, 2), (0x1E8D7, 41), (0x1E94C, 4), (0x1E95A, 4), (0x1E960, 785),
  (0x1ECB5, 76), (0x1ED3E, 194), (0x1EE04, 1), (0x1EE20, 1), (0x1EE23, 1), (0x1EE25, 2),
  (0x1EE28, 1), (0x1EE33, 1), (0x1EE38, 1), (0x1EE3A, 1), (0x1EE3C, 6), (0x1EE43, 4), (0x1EE48, 1),
  (0x1EE4A, 1), (0x1EE4C, 1), (0x1EE50, 1), (0x1EE53, 1), (0x1EE55, 2), (0x1EE58, 1), (0x1EE5A, 1),
  (0x1EE5C, 1), (0x1EE5E, 1), (0x1EE60, 1), (0x1EE63, 1), (0x1EE65, 2), (0x1EE6B, 1), (0x1EE73, 1),
  (0x1EE78, 1), (0x1EE7D, 1), (0x1EE7F, 1), (0x1EE8A, 1), (0x1EE9C, 5), (0x1EEA4, 1), (0x1EEAA, 1),
  (0x1EEBC, 52), (0x1EEF2, 270), (0x1F02C, 4), (0x1F094, 12), (0x1F0AF, 2), (0x1F0C0, 1),
  (0x1F0D0, 1), (0x1F0F6, 10), (0x1F1AE, 56), (0x1F203, 13), (0x1F23C, 4), (0x1F249, 7),
  (0x1F252, 14), (0x1F266, 154), (0x1F6D9, 3), (0x1F6ED, 3), (0x1F6FD, 3), (0x1F7DA, 6),
  (0x1F7EC, 4), (0x1F7F1, 15), (0x1F80C, 4), (0x1F848, 8), (0x1F85A, 6), (0x1F888, 8), (0x1F8AE, 2),
  (0x1F8BC, 4), (0x1F8C2, 14), (0x1F8D9, 39), (0x1FA58, 8), (0x1FA6E, 2), (0x1FA7D, 3),
  (0x1FA8B, 3), (0x1FAC7, 1), (0x1FAC9, 4), (0x1FADD, 2), (0x1FAEB, 4), (0x1FAF9, 7), (0x1FB93, 1),
  (0x1FBFB, 1029), (0x2A6E0, 32), (0x2B81E, 2), (0x2CEAE, 2), (0x2EBE1, 15), (0x2EE5E, 2466),
  (0x2FA1E, 1506), (0x3134B, 5), (0x3347A, 904070)]

/-- Marks, which are the code points of the general categories Mn, Mc and Me, with the Unicode property
Grapheme_Extend; none of them is ASCII. -/
def graphemeExtendRanges : Ranges :=
  [(0x300, 112), (0x483, 7), (0x591, 45), (0x5BF, 1), (0x5C1, 2), (0x5C4, 2), (0x5C7, 1),
  (0x610, 11), (0x64B, 21), (0x670, 1), (0x6D6, 7), (0x6DF, 6), (0x6E7, 2), (0x6EA, 4), (0x711, 1),
  (0x730, 27), (0x7A6, 11), (0x7EB, 9), (0x7FD, 1), (0x816, 4), (0x81B, 9), (0x825, 3), (0x829, 5),
  (0x859, 3), (0x897, 9), (0x8CA, 24), (0x8E3, 32), (0x93A, 1), (0x93C, 1), (0x941, 8), (0x94D, 1),
  (0x951, 7), (0x962, 2), (0x981, 1), (0x9BC, 1), (0x9BE, 1), (0x9C1, 4), (0x9CD, 1), (0x9D7, 1),
  (0x9E2, 2), (0x9FE, 1), (0xA01, 2), (0xA3C, 1), (0xA41, 2), (0xA47, 2), (0xA4B, 3), (0xA51, 1),
  (0xA70, 2), (0xA75, 1), (0xA81, 2), (0xABC, 1), (0xAC1, 5), (0xAC7, 2), (0xACD, 1), (0xAE2, 2),
  (0xAFA, 6), (0xB01, 1), (0xB3C, 1), (0xB3E, 2), (0xB41, 4), (0xB4D, 1), (0xB55, 3), (0xB62, 2),
  (0xB82, 1), (0xBBE, 1), (0xBC0, 1), (0xBCD, 1), (0xBD7, 1), (0xC00, 1), (0xC04, 1), (0xC3C, 1),
  (0xC3E, 3), (0xC46, 3), (0xC4A, 4), (0xC55, 2), (0xC62, 2), (0xC81, 1), (0xCBC, 1), (0xCBF, 2),
  (0xCC2, 1), (0xCC6, 3), (0xCCA, 4), (0xCD5, 2), (0xCE2, 2), (0xD00, 2), (0xD3B, 2), (0xD3E, 1),
  (0xD41, 4), (0xD4D, 1), (0xD57, 1), (0xD62, 2), (0xD81, 1), (0xDCA, 1), (0xDCF, 1), (0xDD2, 3),
  (0xDD6, 1), (0xDDF, 1), (0xE31, 1), (0xE34, 7), (0xE47, 8), (0xEB1, 1), (0xEB4, 9), (0xEC8, 7),
  (0xF18, 2), (0xF35, 1), (0xF37, 1), (0xF39, 1), (0xF71, 14), (0xF80, 5), (0xF86, 2), (0xF8D, 11),
  (0xF99, 36), (0xFC6, 1), (0x102D, 4), (0x1032, 6), (0x1039, 2), (0x103D, 2), (0x1058, 2),
  (0x105E, 3), (0x1071, 4), (0x1082, 1), (0x1085, 2), (0x108D, 1), (0x109D, 1), (0x135D, 3),
  (0x1712, 4), (0x1732, 3), (0x1752, 2), (0x1772, 2), (0x17B4, 2), (0x17B7, 7), (0x17C6, 1),
  (0x17C9, 11), (0x17DD, 1), (0x180B, 3), (0x180F, 1), (0x1885, 2), (0x18A9, 1), (0x1920, 3),
  (0x1927, 2), (0x1932, 1), (0x1939, 3), (0x1A17, 2), (0x1A1B, 1), (0x1A56, 1), (0x1A58, 7),
  (0x1A60, 1), (0x1A62, 1), (0x1A65, 8), (0x1A73, 10), (0x1A7F, 1), (0x1AB0, 46), (0x1AE0, 12),
  (0x1B00, 4), (0x1B34, 10), (0x1B42, 3), (0x1B6B, 9), (0x1B80, 2), (0x1BA2, 4), (0x1BA8, 6),
  (0x1BE6, 1), (0x1BE8, 2), (0x1BED, 1), (0x1BEF, 5), (0x1C2C, 8), (0x1C36, 2), (0x1CD0, 3),
  (0x1CD4, 13), (0x1CE2, 7), (0x1CED, 1), (0x1CF4, 1), (0x1CF8, 2), (0x1DC0, 64), (0x20D0, 33),
  (0x2CEF, 3), (0x2D7F, 1), (0x2DE0, 32), (0x302A, 6), (0x3099, 2), (0xA66F, 4), (0xA674, 10),
  (0xA69E, 2), (0xA6F0, 2), (0xA802, 1), (0xA806, 1), (0xA80B, 1), (0xA825, 2), (0xA82C, 1),
  (0xA8C4, 2), (0xA8E0, 18), (0xA8FF, 1), (0xA926, 8), (0xA947, 11), (0xA953, 1), (0xA980, 3),
  (0xA9B3, 1), (0xA9B6, 4), (0xA9BC, 2), (0xA9C0, 1), (0xA9E5, 1), (0xAA29, 6), (0xAA31, 2),
  (0xAA35, 2), (0xAA43, 1), (0xAA4C, 1), (0xAA7C, 1), (0xAAB0, 1), (0xAAB2, 3), (0xAAB7, 2),
  (0xAABE, 2), (0xAAC1, 1), (0xAAEC, 2), (0xAAF6, 1), (0xABE5, 1), (0xABE8, 1), (0xABED, 1),
  (0xFB1E, 1), (0xFE00, 16), (0xFE20, 16), (0x101FD, 1), (0x102E0, 1), (0x10376, 5), (0x10A01, 3),
  (0x10A05, 2), (0x10A0C, 4), (0x10A38, 3), (0x10A3F, 1), (0x10AE5, 2), (0x10D24, 4), (0x10D69, 5),
  (0x10EAB, 2), (0x10EFA, 6), (0x10F46, 11), (0x10F82, 4), (0x11001, 1), (0x11038, 15),
  (0x11070, 1), (0x11073, 2), (0x1107F, 3), (0x110B3, 4), (0x110B9, 2), (0x110C2, 1), (0x11100, 3),
  (0x11127, 5), (0x1112D, 8), (0x11173, 1), (0x11180, 2), (0x111B6, 9), (0x111C0, 1), (0x111C9, 4),
  (0x111CF, 1), (0x1122F, 3), (0x11234, 4), (0x1123E, 1), (0x11241, 1), (0x112DF, 1), (0x112E3, 8),
  (0x11300, 2), (0x1133B, 2), (0x1133E, 1), (0x11340, 1), (0x1134D, 1), (0x11357, 1), (0x11366, 7),
  (0x11370, 5), (0x113B8, 1), (0x113BB, 6), (0x113C2, 1), (0x113C5, 1), (0x113C7, 3), (0x113CE, 3),
  (0x113D2, 1), (0x113E1, 2), (0x11438, 8), (0x11442, 3), (0x11446, 1), (0x1145E, 1), (0x114B0, 1),
  (0x114B3, 6), (0x114BA, 1), (0x114BD, 1), (0x114BF, 2), (0x114C2, 2), (0x115AF, 1), (0x115B2, 4),
  (0x115BC, 2), (0x115BF, 2), (0x115DC, 2), (0x11633, 8), (0x1163D, 1), (0x1163F, 2), (0x116AB, 1),
  (0x116AD, 1), (0x116B0, 8), (0x1171D, 1), (0x1171F, 1), (0x11722, 4), (0x11727, 5), (0x1182F, 9),
  (0x11839, 2), (0x11930, 1), (0x1193B, 4), (0x11943, 1), (0x119D4, 4), (0x119DA, 2), (0x119E0, 1),
  (0x11A01, 10), (0x11A33, 6), (0x11A3B, 4), (0x11A47, 1), (0x11A51, 6), (0x11A59, 3),
  (0x11A8A, 13), (0x11A98, 2), (0x11B60, 1), (0x11B62, 3), (0x11B66, 1), (0x11C30, 7), (0x11C38, 6),
  (0x11C3F, 1), (0x11C92, 22), (0x11CAA, 7), (0x11CB2, 2), (0x11CB5, 2), (0x11D31, 6), (0x11D3A, 1),
  (0x11D3C, 2), (0x11D3F, 7), (0x11D47, 1), (0x11D90, 2), (0x11D95, 1), (0x11D97, 1), (0x11EF3, 2),
  (0x11F00, 2), (0x11F36, 5), (0x11F40, 3), (0x11F5A, 1), (0x13440, 1), (0x13447, 15),
  (0x1611E, 12), (0x1612D, 3), (0x16AF0, 5), (0x16B30, 7), (0x16F4F, 1), (0x16F8F, 4), (0x16FE4, 1),
  (0x16FF0, 2), (0x1BC9D, 2), (0x1CF00, 46), (0x1CF30, 23), (0x1D165, 5), (0x1D16D, 6),
  (0x1D17B, 8), (0x1D185, 7), (0x1D1AA, 4), (0x1D242, 3), (0x1DA00, 55), (0x1DA3B, 50),
  (0x1DA75, 1), (0x1DA84, 1), (0x1DA9B, 5), (0x1DAA1, 15), (0x1E000, 7), (0x1E008, 17),
  (0x1E01B, 7), (0x1E023, 2), (0x1E026, 5), (0x1E08F, 1), (0x1E130, 7), (0x1E2AE, 1), (0x1E2EC, 4),
  (0x1E4EC, 4), (0x1E5EE, 2), (0x1E6E3, 1), (0x1E6E6, 1), (0x1E6EE, 2), (0x1E6F5, 1), (0x1E8D0, 7),
  (0x1E944, 7), (0xE0100, 240)]

/-- Code points with the Unicode property Cased. -/
def casedRanges : Ranges :=
  [(0x41, 26), (0x61, 26), (0xAA, 1), (0xB5, 1), (0xBA, 1), (0xC0, 23), (0xD8, 31), (0xF8, 195),
  (0x1BC, 4), (0x1C4, 208), (0x296, 35), (0x2C0, 2), (0x2E0, 5), (0x345, 1), (0x370, 4), (0x376, 2),
  (0x37A, 4), (0x37F, 1), (0x386, 1), (0x388, 3), (0x38C, 1), (0x38E, 20), (0x3A3, 83),
  (0x3F7, 139), (0x48A, 166), (0x531, 38), (0x560, 41), (0x10A0, 38), (0x10C7, 1), (0x10CD, 1),
  (0x10D0, 43), (0x10FC, 4), (0x13A0, 86), (0x13F8, 6), (0x1C80, 11), (0x1C90, 43), (0x1CBD, 3),
  (0x1D00, 192), (0x1E00, 278), (0x1F18, 6), (0x1F20, 38), (0x1F48, 6), (0x1F50, 8), (0x1F59, 1),
  (0x1F5B, 1), (0x1F5D, 1), (0x1F5F, 31), (0x1F80, 53), (0x1FB6, 7), (0x1FBE, 1), (0x1FC2, 3),
  (0x1FC6, 7), (0x1FD0, 4), (0x1FD6, 6), (0x1FE0, 13), (0x1FF2, 3), (0x1FF6, 7), (0x2071, 1),
  (0x207F, 1), (0x2090, 13), (0x2102, 1), (0x2107, 1), (0x210A, 10), (0x2115, 1), (0x2119, 5),
  (0x2124, 1), (0x2126, 1), (0x2128, 1), (0x212A, 4), (0x212F, 6), (0x2139, 1), (0x213C, 4),
  (0x2145, 5), (0x214E, 1), (0x2160, 32), (0x2183, 2), (0x24B6, 52), (0x2C00, 229), (0x2CEB, 4),
  (0x2CF2, 2), (0x2D00, 38), (0x2D27, 1), (0x2D2D, 1), (0xA640, 46), (0xA680, 30), (0xA722, 102),
  (0xA78B, 4), (0xA790, 77), (0xA7F1, 6), (0xA7F8, 3), (0xAB30, 43), (0xAB5C, 14), (0xAB70, 80),
  (0xFB00, 7), (0xFB13, 5), (0xFF21, 26), (0xFF41, 26), (0x10400, 80), (0x104B0, 36), (0x104D8, 36),
  (0x10570, 11), (0x1057C, 15), (0x1058C, 7), (0x10594, 2), (0x10597, 11), (0x105A3, 15),
  (0x105B3, 7), (0x105BB, 2), (0x10780, 1), (0x10783, 3), (0x10787, 42), (0x107B2, 9),
  (0x10C80, 51), (0x10CC0, 51), (0x10D50, 22), (0x10D70, 22), (0x118A0, 64), (0x16E40, 64),
  (0x16EA0, 25), (0x16EBB, 25), (0x1D400, 85), (0x1D456, 71), (0x1D49E, 2), (0x1D4A2, 1),
  (0x1D4A5, 2), (0x1D4A9, 4), (0x1D4AE, 12), (0x1D4BB, 1), (0x1D4BD, 7), (0x1D4C5, 65),
  (0x1D507, 4), (0x1D50D, 8), (0x1D516, 7), (0x1D51E, 28), (0x1D53B, 4), (0x1D540, 5), (0x1D546, 1),
  (0x1D54A, 7), (0x1D552, 340), (0x1D6A8, 25), (0x1D6C2, 25), (0x1D6DC, 31), (0x1D6FC, 25),
  (0x1D716, 31), (0x1D736, 25), (0x1D750, 31), (0x1D770, 25), (0x1D78A, 31), (0x1D7AA, 25),
  (0x1D7C4, 8), (0x1DF00, 10), (0x1DF0B, 20), (0x1DF25, 6), (0x1E030, 62), (0x1E900, 68),
  (0x1F130, 26), (0x1F150, 26), (0x1F170, 26)]

/-- Code points with the Unicode property Case_Ignorable. -/
def caseIgnorableRanges : Ranges :=
  [(0x27, 1), (0x2E, 1), (0x3A, 1), (0x5E, 1), (0x60, 1), (0xA8, 1), (0xAD, 1), (0xAF, 1),
  (0xB4, 1), (0xB7, 2), (0x2B0, 192), (0x374, 2), (0x37A, 1), (0x384, 2), (0x387, 1), (0x483, 7),
  (0x559, 1), (0x55F, 1), (0x591, 45), (0x5BF, 1), (0x5C1, 2), (0x5C4, 2), (0x5C7, 1), (0x5F4, 1),
  (0x600, 6), (0x610, 11), (0x61C, 1), (0x640, 1), (0x64B, 21), (0x670, 1), (0x6D6, 8), (0x6DF, 10),
  (0x6EA, 4), (0x70F, 1), (0x711, 1), (0x730, 27), (0x7A6, 11), (0x7EB, 11), (0x7FA, 1), (0x7FD, 1),
  (0x816, 24), (0x859, 3), (0x888, 1), (0x890, 2), (0x897, 9), (0x8C9, 58), (0x93A, 1), (0x93C, 1),
  (0x941, 8), (0x94D, 1), (0x951, 7), (0x962, 2), (0x971, 1), (0x981, 1), (0x9BC, 1), (0x9C1, 4),
  (0x9CD, 1), (0x9E2, 2), (0x9FE, 1), (0xA01, 2), (0xA3C, 1), (0xA41, 2), (0xA47, 2), (0xA4B, 3),
  (0xA51, 1), (0xA70, 2), (0xA75, 1), (0xA81, 2), (0xABC, 1), (0xAC1, 5), (0xAC7, 2), (0xACD, 1),
  (0xAE2, 2), (0xAFA, 6), (0xB01, 1), (0xB3C, 1), (0xB3F, 1), (0xB41, 4), (0xB4D, 1), (0xB55, 2),
  (0xB62, 2), (0xB82, 1), (0xBC0, 1), (0xBCD, 1), (0xC00, 1), (0xC04, 1), (0xC3C, 1), (0xC3E, 3),
  (0xC46, 3), (0xC4A, 4), (0xC55, 2), (0xC62, 2), (0xC81, 1), (0xCBC, 1), (0xCBF, 1), (0xCC6, 1),
  (0xCCC, 2), (0xCE2, 2), (0xD00, 2), (0xD3B, 2), (0xD41, 4), (0xD4D, 1), (0xD62, 2), (0xD81, 1),
  (0xDCA, 1), (0xDD2, 3), (0xDD6, 1), (0xE31, 1), (0xE34, 7), (0xE46, 9), (0xEB1, 1), (0xEB4, 9),
  (0xEC6, 1), (0xEC8, 7), (0xF18, 2), (0xF35, 1), (0xF37, 1), (0xF39, 1), (0xF71, 14), (0xF80, 5),
  (0xF86, 2), (0xF8D, 11), (0xF99, 36), (0xFC6, 1), (0x102D, 4), (0x1032, 6), (0x1039, 2),
  (0x103D, 2), (0x1058, 2), (0x105E, 3), (0x1071, 4), (0x1082, 1), (0x1085, 2), (0x108D, 1),
  (0x109D, 1), (0x10FC, 1), (0x135D, 3), (0x1712, 3), (0x1732, 2), (0x1752, 2), (0x1772, 2),
  (0x17B4, 2), (0x17B7, 7), (0x17C6, 1), (0x17C9, 11), (0x17D7, 1), (0x17DD, 1), (0x180B, 5),
  (0x1843, 1), (0x1885, 2), (0x18A9, 1), (0x1920, 3), (0x1927, 2), (0x1932, 1), (0x1939, 3),
  (0x1A17, 2), (0x1A1B, 1), (0x1A56, 1), (0x1A58, 7), (0x1A60, 1), (0x1A62, 1), (0x1A65, 8),
  (0x1A73, 10), (0x1A7F, 1), (0x1AA7, 1), (0x1AB0, 46), (0x1AE0, 12), (0x1B00, 4), (0x1B34, 1),
  (0x1B36, 5), (0x1B3C, 1), (0x1B42, 1), (0x1B6B, 9), (0x1B80, 2), (0x1BA2, 4), (0x1BA8, 2),
  (0x1BAB, 3), (0x1BE6, 1), (0x1BE8, 2), (0x1BED, 1), (0x1BEF, 3), (0x1C2C, 8), (0x1C36, 2),
  (0x1C78, 6), (0x1CD0, 3), (0x1CD4, 13), (0x1CE2, 7), (0x1CED, 1), (0x1CF4, 1), (0x1CF8, 2),
  (0x1D2C, 63), (0x1D78, 1), (0x1D9B, 101), (0x1FBD, 1), (0x1FBF, 3), (0x1FCD, 3), (0x1FDD, 3),
  (0x1FED, 3), (0x1FFD, 2), (0x200B, 5), (0x2018, 2), (0x2024, 1), (0x2027, 1), (0x202A, 5),
  (0x2060, 5), (0x2066, 10), (0x2071, 1), (0x207F, 1), (0x2090, 13), (0x20D0, 33), (0x2C7C, 2),
  (0x2CEF, 3), (0x2D6F, 1), (0x2D7F, 1), (0x2DE0, 32), (0x2E2F, 1), (0x3005, 1), (0x302A, 4),
  (0x3031, 5), (0x303B, 1), (0x3099, 6), (0x30FC, 3), (0xA015, 1), (0xA4F8, 6), (0xA60C, 1),
  (0xA66F, 4), (0xA674, 10), (0xA67F, 1), (0xA69C, 4), (0xA6F0, 2), (0xA700, 34), (0xA770, 1),
  (0xA788, 3), (0xA7F1, 4), (0xA7F8, 2), (0xA802, 1), (0xA806, 1), (0xA80B, 1), (0xA825, 2),
  (0xA82C, 1), (0xA8C4, 2), (0xA8E0, 18), (0xA8FF, 1), (0xA926, 8), (0xA947, 11), (0xA980, 3),
  (0xA9B3, 1), (0xA9B6, 4), (0xA9BC, 2), (0xA9CF, 1), (0xA9E5, 2), (0xAA29, 6), (0xAA31, 2),
  (0xAA35, 2), (0xAA43, 1), (0xAA4C, 1), (0xAA70, 1), (0xAA7C, 1), (0xAAB0, 1), (0xAAB2, 3),
  (0xAAB7, 2), (0xAABE, 2), (0xAAC1, 1), (0xAADD, 1), (0xAAEC, 2), (0xAAF3, 2), (0xAAF6, 1),
  (0xAB5B, 5), (0xAB69, 3), (0xABE5, 1), (0xABE8, 1), (0xABED, 1), (0xFB1E, 1), (0xFBB2, 17),
  (0xFE00, 16), (0xFE13, 1), (0xFE20, 16), (0xFE52, 1), (0xFE55, 1), (0xFEFF, 1), (0xFF07, 1),
  (0xFF0E, 1), (0xFF1A, 1), (0xFF3E, 1), (0xFF40, 1), (0xFF70, 1), (0xFF9E, 2), (0xFFE3, 1),
  (0xFFF9, 3), (0x101FD, 1), (0x102E0, 1), (0x10376, 5), (0x10780, 6), (0x10787, 42), (0x107B2, 9),
  (0x10A01, 3), (0x10A05, 2), (0x10A0C, 4), (0x10A38, 3), (0x10A3F, 1), (0x10AE5, 2), (0x10D24, 4),
  (0x10D4E, 1), (0x10D69, 5), (0x10D6F, 1), (0x10EAB, 2), (0x10EC5, 1), (0x10EFA, 6), (0x10F46, 11),
  (0x10F82, 4), (0x11001, 1), (0x11038, 15), (0x11070, 1), (0x11073, 2), (0x1107F, 3), (0x110B3, 4),
  (0x110B9, 2), (0x110BD, 1), (0x110C2, 1), (0x110CD, 1), (0x11100, 3), (0x11127, 5), (0x1112D, 8),
  (0x11173, 1), (0x11180, 2), (0x111B6, 9), (0x111C9, 4), (0x111CF, 1), (0x1122F, 3), (0x11234, 1),
  (0x11236, 2), (0x1123E, 1), (0x11241, 1), (0x112DF, 1), (0x112E3, 8), (0x11300, 2), (0x1133B, 2),
  (0x11340, 1), (0x11366, 7), (0x11370, 5), (0x113BB, 6), (0x113CE, 1), (0x113D0, 1), (0x113D2, 1),
  (0x113E1, 2), (0x11438, 8), (0x11442, 3), (0x11446, 1), (0x1145E, 1), (0x114B3, 6), (0x114BA, 1),
  (0x114BF, 2), (0x114C2, 2), (0x115B2, 4), (0x115BC, 2), (0x115BF, 2), (0x115DC, 2), (0x11633, 8),
  (0x1163D, 1), (0x1163F, 2), (0x116AB, 1), (0x116AD, 1), (0x116B0, 6), (0x116B7, 1), (0x1171D, 1),
  (0x1171F, 1), (0x11722, 4), (0x11727, 5), (0x1182F, 9), (0x11839, 2), (0x1193B, 2), (0x1193E, 1),
  (0x11943, 1), (0x119D4, 4), (0x119DA, 2), (0x119E0, 1), (0x11A01, 10), (0x11A33, 6), (0x11A3B, 4),
  (0x11A47, 1), (0x11A51, 6), (0x11A59, 3), (0x11A8A, 13), (0x11A98, 2), (0x11B60, 1), (0x11B62, 3),
  (0x11B66, 1), (0x11C30, 7), (0x11C38, 6), (0x11C3F, 1), (0x11C92, 22), (0x11CAA, 7), (0x11CB2, 2),
  (0x11CB5, 2), (0x11D31, 6), (0x11D3A, 1), (0x11D3C, 2), (0x11D3F, 7), (0x11D47, 1), (0x11D90, 2),
  (0x11D95, 1), (0x11D97, 1), (0x11DD9, 1), (0x11EF3, 2), (0x11F00, 2), (0x11F36, 5), (0x11F40, 1),
  (0x11F42, 1), (0x11F5A, 1), (0x13430, 17), (0x13447, 15), (0x1611E, 12), (0x1612D, 3),
  (0x16AF0, 5), (0x16B30, 7), (0x16B40, 4), (0x16D40, 3), (0x16D6B, 2), (0x16F4F, 1), (0x16F8F, 17),
  (0x16FE0, 2), (0x16FE3, 2), (0x16FF2, 2), (0x1AFF0, 4), (0x1AFF5, 7), (0x1AFFD, 2), (0x1BC9D, 2),
  (0x1BCA0, 4), (0x1CF00, 46), (0x1CF30, 23), (0x1D167, 3), (0x1D173, 16), (0x1D185, 7),
  (0x1D1AA, 4), (0x1D242, 3), (0x1DA00, 55), (0x1DA3B, 50), (0x1DA75, 1), (0x1DA84, 1),
  (0x1DA9B, 5), (0x1DAA1, 15), (0x1E000, 7), (0x1E008, 17), (0x1E01B, 7), (0x1E023, 2),
  (0x1E026, 5), (0x1E030, 62), (0x1E08F, 1), (0x1E130, 14), (0x1E2AE, 1), (0x1E2EC, 4),
  (0x1E4EB, 5), (0x1E5EE, 2), (0x1E6E3, 1), (0x1E6E6, 1), (0x1E6EE, 2), (0x1E6F5, 1), (0x1E6FF, 1),
  (0x1E8D0, 7), (0x1E944, 8), (0x1F3FB, 5), (0xE0001, 1), (0xE0020, 96), (0xE0100, 240)]

end Stencil.Text
