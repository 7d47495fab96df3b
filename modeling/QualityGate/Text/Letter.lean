/-!
Characters of words: letters, marks, digits and connecting punctuation of all scripts, as ranges. A
range may run over code points that are not assigned.
-/
namespace QualityGate.Text

def wordRanges : List (Nat × Nat) :=
  [(0x30, 0x39), (0x41, 0x5a), (0x5f, 0x5f), (0x61, 0x7a), (0xaa, 0xaa), (0xb5, 0xb5),
   (0xba, 0xba), (0xc0, 0xd6), (0xd8, 0xf6), (0xf8, 0x2c1), (0x2c6, 0x2d1), (0x2e0, 0x2e4),
   (0x2ec, 0x2ec), (0x2ee, 0x2ee), (0x300, 0x374), (0x376, 0x37d), (0x37f, 0x37f), (0x386, 0x386),
   (0x388, 0x3f5), (0x3f7, 0x481), (0x483, 0x559), (0x560, 0x588), (0x591, 0x5bd), (0x5bf, 0x5bf),
   (0x5c1, 0x5c2), (0x5c4, 0x5c5), (0x5c7, 0x5f2), (0x610, 0x61a), (0x620, 0x669), (0x66e, 0x6d3),
   (0x6d5, 0x6dc), (0x6df, 0x6e8), (0x6ea, 0x6fc), (0x6ff, 0x6ff), (0x710, 0x7f5), (0x7fa, 0x7fd),
   (0x800, 0x82d), (0x840, 0x85b), (0x860, 0x887), (0x889, 0x88e), (0x898, 0x8e1), (0x8e3, 0x963),
   (0x966, 0x96f), (0x971, 0x9f1), (0x9fc, 0x9fc), (0x9fe, 0xa75), (0xa81, 0xaef), (0xaf9, 0xb6f),
   (0xb71, 0xb71), (0xb82, 0xbef), (0xc00, 0xc6f), (0xc80, 0xc83), (0xc85, 0xd4e), (0xd54, 0xd57),
   (0xd5f, 0xd6f), (0xd7a, 0xdf3), (0xe01, 0xe3a), (0xe40, 0xe4e), (0xe50, 0xe59), (0xe81, 0xf00),
   (0xf18, 0xf19), (0xf20, 0xf29), (0xf35, 0xf35), (0xf37, 0xf37), (0xf39, 0xf39), (0xf3e, 0xf84),
   (0xf86, 0xfbc), (0xfc6, 0xfc6), (0x1000, 0x1049), (0x1050, 0x109d), (0x10a0, 0x10fa),
   (0x10fc, 0x135f), (0x1380, 0x138f), (0x13a0, 0x13fd), (0x1401, 0x166c), (0x166f, 0x167f),
   (0x1681, 0x169a), (0x16a0, 0x16ea), (0x16ee, 0x1734), (0x1740, 0x17d3), (0x17d7, 0x17d7),
   (0x17dc, 0x17e9), (0x180b, 0x180d), (0x180f, 0x193b), (0x1946, 0x19d9), (0x1a00, 0x1a1b),
   (0x1a20, 0x1a99), (0x1aa7, 0x1aa7), (0x1ab0, 0x1b59), (0x1b6b, 0x1b73), (0x1b80, 0x1bf3),
   (0x1c00, 0x1c37), (0x1c40, 0x1c7d), (0x1c80, 0x1cbf), (0x1cd0, 0x1cd2), (0x1cd4, 0x1fbc),
   (0x1fbe, 0x1fbe), (0x1fc2, 0x1fcc), (0x1fd0, 0x1fdb), (0x1fe0, 0x1fec), (0x1ff2, 0x1ffc),
   (0x200c, 0x200d), (0x203f, 0x2040), (0x2054, 0x2054), (0x2071, 0x2071), (0x207f, 0x207f),
   (0x2090, 0x209c), (0x20d0, 0x20f0), (0x2102, 0x2102), (0x2107, 0x2107), (0x210a, 0x2113),
   (0x2115, 0x2115), (0x2119, 0x211d), (0x2124, 0x2124), (0x2126, 0x2126), (0x2128, 0x2128),
   (0x212a, 0x212d), (0x212f, 0x2139), (0x213c, 0x213f), (0x2145, 0x2149), (0x214e, 0x214e),
   (0x2160, 0x2188), (0x24b6, 0x24e9), (0x2c00, 0x2ce4), (0x2ceb, 0x2cf3), (0x2d00, 0x2d6f),
   (0x2d7f, 0x2dff), (0x2e2f, 0x2e2f), (0x3005, 0x3007), (0x3021, 0x302f), (0x3031, 0x3035),
   (0x3038, 0x303c), (0x3041, 0x309a), (0x309d, 0x309f), (0x30a1, 0x30fa), (0x30fc, 0x318e),
   (0x31a0, 0x31bf), (0x31f0, 0x31ff), (0x3400, 0x4dbf), (0x4e00, 0xa48c), (0xa4d0, 0xa4fd),
   (0xa500, 0xa60c), (0xa610, 0xa672), (0xa674, 0xa67d), (0xa67f, 0xa6f1), (0xa717, 0xa71f),
   (0xa722, 0xa788), (0xa78b, 0xa827), (0xa82c, 0xa82c), (0xa840, 0xa873), (0xa880, 0xa8c5),
   (0xa8d0, 0xa8f7), (0xa8fb, 0xa8fb), (0xa8fd, 0xa92d), (0xa930, 0xa953), (0xa960, 0xa9c0),
   (0xa9cf, 0xa9d9), (0xa9e0, 0xaa59), (0xaa60, 0xaa76), (0xaa7a, 0xaadd), (0xaae0, 0xaaef),
   (0xaaf2, 0xab5a), (0xab5c, 0xab69), (0xab70, 0xabea), (0xabec, 0xd7fb), (0xf900, 0xfb28),
   (0xfb2a, 0xfbb1), (0xfbd3, 0xfd3d), (0xfd50, 0xfdc7), (0xfdf0, 0xfdfb), (0xfe00, 0xfe0f),
   (0xfe20, 0xfe2f), (0xfe33, 0xfe34), (0xfe4d, 0xfe4f), (0xfe70, 0xfefc), (0xff10, 0xff19),
   (0xff21, 0xff3a), (0xff3f, 0xff3f), (0xff41, 0xff5a), (0xff66, 0xffdc), (0x10000, 0x100fa),
   (0x10140, 0x10174), (0x101fd, 0x102e0), (0x10300, 0x1031f), (0x1032d, 0x1039d),
   (0x103a0, 0x103cf), (0x103d1, 0x10563), (0x10570, 0x10855), (0x10860, 0x10876),
   (0x10880, 0x1089e), (0x108e0, 0x108f5), (0x10900, 0x10915), (0x10920, 0x10939),
   (0x10980, 0x109b7), (0x109be, 0x109bf), (0x10a00, 0x10a3f), (0x10a60, 0x10a7c),
   (0x10a80, 0x10a9c), (0x10ac0, 0x10ac7), (0x10ac9, 0x10ae6), (0x10b00, 0x10b35),
   (0x10b40, 0x10b55), (0x10b60, 0x10b72), (0x10b80, 0x10b91), (0x10c00, 0x10cf2),
   (0x10d00, 0x10d39), (0x10e80, 0x10eac), (0x10eb0, 0x10f1c), (0x10f27, 0x10f50),
   (0x10f70, 0x10f85), (0x10fb0, 0x10fc4), (0x10fe0, 0x11046), (0x11066, 0x110ba),
   (0x110c2, 0x110c2), (0x110d0, 0x1113f), (0x11144, 0x11173), (0x11176, 0x111c4),
   (0x111c9, 0x111cc), (0x111ce, 0x111da), (0x111dc, 0x111dc), (0x11200, 0x11237),
   (0x1123e, 0x112a8), (0x112b0, 0x1144a), (0x11450, 0x11459), (0x1145e, 0x114c5),
   (0x114c7, 0x115c0), (0x115d8, 0x11640), (0x11644, 0x11659), (0x11680, 0x116b8),
   (0x116c0, 0x11739), (0x11740, 0x1183a), (0x118a0, 0x118e9), (0x118ff, 0x11943),
   (0x11950, 0x119e1), (0x119e3, 0x11a3e), (0x11a47, 0x11a99), (0x11a9d, 0x11a9d),
   (0x11ab0, 0x11c40), (0x11c50, 0x11c59), (0x11c72, 0x11ef6), (0x11fb0, 0x11fb0),
   (0x12000, 0x1246e), (0x12480, 0x12ff0), (0x13000, 0x1342e), (0x14400, 0x16a69),
   (0x16a70, 0x16af4), (0x16b00, 0x16b36), (0x16b40, 0x16b43), (0x16b50, 0x16b59),
   (0x16b63, 0x16e7f), (0x16f00, 0x16fe1), (0x16fe3, 0x1bc99), (0x1bc9d, 0x1bc9e),
   (0x1cf00, 0x1cf46), (0x1d165, 0x1d169), (0x1d16d, 0x1d172), (0x1d17b, 0x1d182),
   (0x1d185, 0x1d18b), (0x1d1aa, 0x1d1ad), (0x1d242, 0x1d244), (0x1d400, 0x1d6c0),
   (0x1d6c2, 0x1d6da), (0x1d6dc, 0x1d6fa), (0x1d6fc, 0x1d714), (0x1d716, 0x1d734),
   (0x1d736, 0x1d74e), (0x1d750, 0x1d76e), (0x1d770, 0x1d788), (0x1d78a, 0x1d7a8),
   (0x1d7aa, 0x1d7c2), (0x1d7c4, 0x1d7ff), (0x1da00, 0x1da36), (0x1da3b, 0x1da6c),
   (0x1da75, 0x1da75), (0x1da84, 0x1da84), (0x1da9b, 0x1e14e), (0x1e290, 0x1e2f9),
   (0x1e7e0, 0x1e8c4), (0x1e8d0, 0x1e959), (0x1ee00, 0x1eebb), (0x1f130, 0x1f149),
   (0x1f150, 0x1f169), (0x1f170, 0x1f189), (0x1fbf0, 0x3134a), (0xe0100, 0xe01ef)]

def isWordCharacter (c : Char) : Bool :=
  wordRanges.any fun r => r.1 ≤ c.toNat && c.toNat ≤ r.2

end QualityGate.Text
